import Mewtual.Epoch.Primitives

/-!
# The frame of a signed record

Receipts, repairs and closes share one outer shape: the framed unsigned transcript
followed by the framed signature, decoded strictly under a byte cap and accepted only
if the decoded value encodes to exactly the bytes that were read.

Main results:

- Theorem {lit}`decodeSigned_encode_iff`: a record's own bytes decode exactly when its
  transcript passes the transcript checks.
- Theorem {lit}`encode_of_decodeSigned`: what is accepted is canonical and under the cap.
-/

namespace Mewtual

/-- Run a parser over a whole byte string. -/
def Parser.parse {α : Type} (parser : Parser α) (bytes : Bytes) : Except ReplError α :=
  (parser.run bytes).map Prod.fst

/-- A parse that returns has run. -/
theorem Parser.run_of_parse {α : Type} {parser : Parser α} {bytes : Bytes} {value : α}
    (h : parser.parse bytes = .ok value) : ∃ left, parser.run bytes = .ok (value, left) := by
  rw [Parser.parse] at h
  cases hrun : parser.run bytes with
  | error error =>
    rw [hrun] at h
    cases h
  | ok result =>
    rw [hrun] at h
    cases h
    exact ⟨result.2, rfl⟩

/-- A guarded parser goes on where its guard does not hold. -/
theorem run_guard_eq_ok {α β : Type} {cond : Prop} [Decidable cond] {error : ReplError}
    {next : β → Parser α} {parser : Parser α} {bytes : Bytes} {result : α × Bytes} :
    (if cond then throw error >>= next else parser).run bytes = .ok result ↔
      ¬ cond ∧ parser.run bytes = .ok result := by
  split <;> rename_i h
  · exact ⟨nofun, fun hrun => absurd h hrun.1⟩
  · exact (and_iff_right h).symm

/-- The outer frame of a signed record: its unsigned bytes and its signature. -/
def getSigned : Parser (Bytes × Signature) := do
  let unsigned ← Decoder.orMalformed getBytes
  let signature ← getFixed 64
  Decoder.orMalformed finish
  pure (unsigned, signature)

/-- The bytes of a signed record. -/
def putSigned (unsigned : Bytes) (signature : Signature) : Bytes :=
  framed unsigned ++ framed (fixedBytes signature)

/-- Strict decoding of a signed record: the cap, the outer frame, the transcript with its
own checks, and equality with the bytes read. -/
def decodeSigned {α : Type} (cap : Nat) (getUnsigned : Signature → Parser α)
    (encode : α → Bytes) (bytes : Bytes) : Except ReplError α := do
  if bytes.length > cap then throw .epochBound
  let (unsigned, signature) ← Parser.parse getSigned bytes
  let record ← Parser.parse (getUnsigned signature) unsigned
  if encode record ≠ bytes then throw .malformed
  pure record

@[simp] theorem length_putSigned (unsigned : Bytes) (signature : Signature) :
    (putSigned unsigned signature).length = 72 + unsigned.length := by
  simp only [putSigned, List.length_append, length_framed, length_fixedBytes]
  omega

theorem parse_getSigned {unsigned : Bytes} (hlen : unsigned.length < 2 ^ 32)
    (signature : Signature) :
    Parser.parse getSigned (putSigned unsigned signature) = .ok (unsigned, signature) := by
  have hrun : Accepts getSigned (putSigned unsigned signature) (unsigned, signature) [] := by
    simp [getSigned, putSigned, (getBytes_framed hlen).accepts, accepts_getFixed, accepts_finish]
  rw [Parser.parse, hrun]
  rfl

/-- A byte field decoded by a nested strict decoder. -/
def getNested {α : Type} (decode : Bytes → Except ReplError α) : Parser α := do
  let bytes ← Decoder.orMalformed getBytes
  match decode bytes with
  | .error error => throw error
  | .ok value => pure value

theorem accepts_getNested {α : Type} {decode : Bytes → Except ReplError α} {value : α}
    {input left : Bytes} : Accepts (getNested decode) input value left ↔
      ∃ bytes, Accepts getBytes input bytes left ∧ decode bytes = .ok value := by
  have hfound (bytes after : Bytes) : Accepts (ε := ReplError)
      (match decode bytes with
      | .error error => throw error
      | .ok value => pure value) after value left ↔ decode bytes = .ok value ∧ after = left := by
    cases decode bytes <;> simp
  simp only [getNested, accepts_bind, accepts_orMalformed, hfound, exists_eq_right_right]

theorem getNested_framed {α : Type} {decode : Bytes → Except ReplError α} {bytes : Bytes}
    {value : α} (hlen : bytes.length < 2 ^ 32) (hok : decode bytes = .ok value) :
    Reads (getNested decode) (framed bytes) value :=
  fun _ => accepts_getNested.mpr ⟨bytes, getBytes_framed hlen _, hok⟩

/-- A framed record is accepted exactly when its nested decoder accepts it. -/
theorem getNested_when {α : Type} {decode : Bytes → Except ReplError α} {bytes : Bytes}
    {value : α} {valid : Prop} (hlen : bytes.length < 2 ^ 32)
    (h : ∀ decoded, decode bytes = .ok decoded ↔ valid ∧ decoded = value) :
    ReadsWhen (getNested decode) (framed bytes) valid value := by
  simp [readsWhen_iff, accepts_getNested, (getBytes_framed hlen).accepts, h, eq_comm, and_comm,
    and_assoc]

section SignedRecord

variable {α : Type} {cap : Nat} {getUnsigned : Signature → Parser α} {encode : α → Bytes}

/-- A record's own bytes decode, to that record, exactly when its transcript is valid. -/
theorem decodeSigned_encode_iff {record : α} {unsigned : Bytes} {signature : Signature}
    {Valid : Prop} (hcap : cap < 2 ^ 32)
    (hencode : encode record = putSigned unsigned signature)
    (hparse : ∀ pair, (getUnsigned signature).run unsigned = .ok pair ↔
      Valid ∧ pair = (record, []))
    (hlen : Valid → (encode record).length ≤ cap) {result : α} :
    decodeSigned cap getUnsigned encode (encode record) = .ok result ↔
      Valid ∧ result = record := by
  unfold decodeSigned
  by_cases hlong : (encode record).length > cap
  · rw [if_pos hlong]
    refine ⟨nofun, fun h => ?_⟩
    have hle := hlen h.1
    omega
  · have hunsigned : unsigned.length < 2 ^ 32 := by
      rw [hencode, length_putSigned] at hlong
      omega
    have hsigned : Parser.parse getSigned (encode record) = .ok (unsigned, signature) := by
      rw [hencode]
      exact parse_getSigned hunsigned signature
    rw [if_neg hlong, hsigned, ok_bind]
    dsimp only
    rw [Parser.parse]
    cases hresult : (getUnsigned signature).run unsigned with
    | error error =>
      refine ⟨nofun, fun h => ?_⟩
      rw [(hparse _).mpr ⟨h.1, rfl⟩] at hresult
      cases hresult
    | ok pair =>
      obtain ⟨hvalid, rfl⟩ := (hparse pair).mp hresult
      rw [Except.map, ok_bind, if_neg (by simp)]
      exact ⟨fun hok => ⟨hvalid, (Except.ok.inj hok).symm⟩, fun h => by rw [h.2]; rfl⟩

/-- An accepted record encodes to the bytes it was read from, which respect the cap. -/
theorem encode_of_decodeSigned {bytes : Bytes} {record : α}
    (hok : decodeSigned cap getUnsigned encode bytes = .ok record) :
    encode record = bytes ∧ bytes.length ≤ cap := by
  unfold decodeSigned at hok
  rcases guard_eq_ok.mp hok with ⟨hlen, hok⟩
  rcases bind_eq_ok.mp hok with ⟨⟨unsigned, signature⟩, -, hok⟩
  rcases bind_eq_ok.mp hok with ⟨parsed, -, hok⟩
  rcases guard_eq_ok.mp hok with ⟨hbytes, hok⟩
  cases hok
  exact ⟨not_not.mp hbytes, Nat.not_lt.mp hlen⟩

end SignedRecord

end Mewtual
