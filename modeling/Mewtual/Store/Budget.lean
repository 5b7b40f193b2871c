import Mewtual.Epoch.Primitives
import Mewtual.Lib.Machine
import Mewtual.Lib.Run
import Mewtual.Lib.TreeMap

/-!
# The storage budget of a server

Local admission of file writes from a complete disk inventory. Bytes are charged to three pools.
A replacement is admitted only if the old file, the complete new copy and its scratch fit at the
same time: an ordinary write outside the settlement reserve, a settlement write inside it.

A granted reservation holds the budget exclusively, so its end, a commit, a cancellation or its
loss, is the next thing that happens to the budget.

Main results:

- Theorem {lit}`EpochStorageBudget.Sound.step`: every call keeps the accounts.
- Theorem {lit}`EpochStorageBudget.budget_holds`: the accounts, the pools, the pinned document and
  the peak of every granted write, over every history.
-/

namespace Mewtual

open Std

def maxStorageBytes : Nat := 2 * 1024 * 1024 * 1024

def settlementReserveBytes : Nat := 48 * 1024 * 1024

def protocolAllowanceBytes : Nat := 16 * 1024 * 1024

def contentAllowanceBytes : Nat :=
  maxStorageBytes - settlementReserveBytes - protocolAllowanceBytes

def maxAccountedRecords : Nat := 65536

theorem allowances_total :
    contentAllowanceBytes + protocolAllowanceBytes + settlementReserveBytes = maxStorageBytes := rfl

theorem maxStorageBytes_lt : maxStorageBytes < 2 ^ 64 := by decide

/-- Why a reservation is refused. -/
inductive BudgetError where
  | scope
  | reconcile
  | limit
  | recordLimit
  | inventory
  | settlementBusy
deriving DecidableEq

/-- Local mount id and full group id. -/
structure StorageScope where
  server : UInt64
  group : Bytes
deriving DecidableEq

/-! ## Footprints -/

/-- Physical bytes by pool. -/
structure Footprint where
  content : Nat := 0
  protocol : Nat := 0
  settlement : Nat := 0
deriving DecidableEq

/-- {lit}`checked_add(..).ok_or(BudgetError::Limit)`. -/
def addOrLimit (left right : Nat) : Except BudgetError Nat :=
  match checkedAddNat left right with
  | some sum => .ok sum
  | none => .error .limit

theorem addOrLimit_eq_ok {left right sum : Nat} (h : addOrLimit left right = .ok sum) :
    sum = left + right := by
  unfold addOrLimit at h
  split at h
  · rename_i found hfound
    cases h
    exact checkedAddNat_eq_some hfound
  · cases h

theorem addOrLimit_of_lt {left right : Nat} (h : left + right < 2 ^ 64) :
    addOrLimit left right = .ok (left + right) := by
  unfold addOrLimit checkedAddNat
  rw [if_pos h]

namespace Footprint

/-- The whole physical length. -/
def total (print : Footprint) : Except BudgetError Nat := do
  let sum ← addOrLimit print.content print.protocol
  addOrLimit sum print.settlement

/-- Add two footprints without overflow. -/
def plus (left right : Footprint) : Except BudgetError Footprint := do
  let content ← addOrLimit left.content right.content
  let protocol ← addOrLimit left.protocol right.protocol
  let settlement ← addOrLimit left.settlement right.settlement
  return ⟨content, protocol, settlement⟩

/-- The source subtracts without a check. -/
def minus (left right : Footprint) : Footprint :=
  ⟨left.content - right.content, left.protocol - right.protocol,
    left.settlement - right.settlement⟩

/-- A footprint within the allowances. -/
def check (print : Footprint) : Except BudgetError Unit :=
  if contentAllowanceBytes < print.content ∨ protocolAllowanceBytes < print.protocol ∨
      settlementReserveBytes < print.settlement then .error .limit
  else do
    let total ← print.total
    if maxStorageBytes < total then .error .limit else .ok ()

/-- All bytes of a footprint. -/
def size (print : Footprint) : Nat := print.content + print.protocol + print.settlement

/-- Every pool is within its allowance. -/
structure Within (print : Footprint) : Prop where
  content : print.content ≤ contentAllowanceBytes
  protocol : print.protocol ≤ protocolAllowanceBytes
  settlement : print.settlement ≤ settlementReserveBytes

/-- No pool holds more than in another footprint. -/
structure Le (left right : Footprint) : Prop where
  content : left.content ≤ right.content
  protocol : left.protocol ≤ right.protocol
  settlement : left.settlement ≤ right.settlement

variable {print : Footprint}

theorem Within.size_le (h : print.Within) : print.size ≤ maxStorageBytes := by
  have hcontent := h.content
  have hprotocol := h.protocol
  have hsettlement := h.settlement
  rw [← allowances_total, size]
  omega

theorem total_eq_ok {total : Nat} (h : print.total = .ok total) : total = print.size := by
  obtain ⟨sum, hsum, htotal⟩ := bind_eq_ok.mp h
  rw [addOrLimit_eq_ok htotal, addOrLimit_eq_ok hsum, size]

theorem plus_eq_ok {left right sum : Footprint} (h : left.plus right = .ok sum) :
    sum = ⟨left.content + right.content, left.protocol + right.protocol,
      left.settlement + right.settlement⟩ := by
  obtain ⟨content, hcontent, h⟩ := bind_eq_ok.mp h
  obtain ⟨protocol, hprotocol, h⟩ := bind_eq_ok.mp h
  obtain ⟨settlement, hsettlement, h⟩ := bind_eq_ok.mp h
  cases h
  rw [addOrLimit_eq_ok hcontent, addOrLimit_eq_ok hprotocol, addOrLimit_eq_ok hsettlement]

/-- The check accepts exactly the footprints within every allowance. -/
theorem check_eq_ok : print.check = .ok () ↔ print.Within := by
  unfold check
  constructor
  · intro h
    split at h
    · cases h
    · rename_i hpools
      exact ⟨by omega, by omega, by omega⟩
  · intro h
    have hcontent := h.content
    have hprotocol := h.protocol
    have hsettlement := h.settlement
    have hsize := h.size_le
    have hmax := maxStorageBytes_lt
    rw [if_neg (by omega)]
    have htotal : print.total = .ok print.size := by
      unfold size at hsize ⊢
      unfold total
      rw [addOrLimit_of_lt (by omega)]
      exact addOrLimit_of_lt (by omega)
    rw [htotal]
    exact if_neg (by omega)

end Footprint

/-! ## The budget -/

/-- One inventory entry. -/
structure StorageRecord where
  id : Hash32
  document : Hash32
  footprint : Footprint
deriving DecidableEq

/-- Which pool may carry the extra copy before an atomic replacement. -/
inductive WritePurpose where
  | ordinary
  | settlement
deriving DecidableEq

/-- What a write replaces. -/
structure Replacement where
  record : StorageRecord
  scratchBytes : Nat
  purpose : WritePurpose
deriving DecidableEq

/-- The accounted records and the reservation that is open. -/
structure EpochStorageBudget where
  scope : StorageScope
  records : ExtTreeMap Hash32 StorageRecord
  usage : Footprint
  pinned : Option Hash32
  ready : Bool

/-- A granted write: the record it leaves and the usage after it. -/
structure StorageReservation where
  record : StorageRecord
  finalUsage : Footprint

namespace EpochStorageBudget

/-- The pin after a record: settlement bytes pin their document, and only one. -/
def pinRecord (budget : EpochStorageBudget) (record : StorageRecord) :
    Except BudgetError (Option Hash32) :=
  if record.footprint.settlement ≠ 0 then
    if budget.pinned.any (· ≠ record.document) then .error .settlementBusy
    else .ok (some record.document)
  else .ok budget.pinned

/-- One entry of an inventory. -/
def addRecord (budget : EpochStorageBudget) (record : StorageRecord) :
    Except BudgetError EpochStorageBudget := do
  if budget.records.size = maxAccountedRecords then .error .recordLimit
  if (budget.records[record.id]?).isSome then .error .inventory
  let pinned ← budget.pinRecord record
  let usage ← budget.usage.plus record.footprint
  usage.check
  return { budget with
    records := budget.records.insert record.id record, usage := usage, pinned := pinned }

/-- A budget for what was found on disk. -/
def fromInventory (scope : StorageScope) (records : List StorageRecord) :
    Except BudgetError EpochStorageBudget :=
  records.foldlM addRecord ⟨scope, ∅, {}, none, true⟩

/-- A failed reconciliation leaves the budget closed. -/
def reconcile (budget : EpochStorageBudget) (scope : StorageScope)
    (records : List StorageRecord) : Except BudgetError Unit × EpochStorageBudget :=
  let closed := { budget with ready := false }
  if budget.scope ≠ scope then (.error .scope, closed)
  else
    match fromInventory scope records with
    | .error error => (.error error, closed)
    | .ok next => (.ok (), next)

/-- The accounts are not trusted until they are reconciled. -/
def invalidate (budget : EpochStorageBudget) : EpochStorageBudget := { budget with ready := false }

/-- A mismatch closes the whole budget. -/
def verifyRecord (budget : EpochStorageBudget) (scope : StorageScope) (id : Hash32)
    (observed : Option StorageRecord) : Except BudgetError Unit × EpochStorageBudget :=
  if !budget.ready then (.error .reconcile, budget)
  else if budget.scope ≠ scope then (.error .scope, budget)
  else if observed.any (·.id ≠ id) ∨ budget.records[id]? ≠ observed then
    (.error .inventory, { budget with ready := false })
  else (.ok (), budget)

/-- The pool that carries the temporary copy has room for it. -/
def checkPeak (budget : EpochStorageBudget) (replacement : Replacement)
    (old : Option StorageRecord) : Except BudgetError Unit :=
  let record := replacement.record
  match replacement.purpose with
  | .ordinary => do
    if record.footprint.settlement ≠ 0 ∨ old.any (·.footprint.settlement ≠ 0) then
      .error .settlementBusy
    let copied ← budget.usage.plus record.footprint
    let peak ← copied.plus { content := replacement.scratchBytes }
    peak.check
  | .settlement => do
    if budget.pinned.any (· ≠ record.document) then .error .settlementBusy
    let total ← record.footprint.total
    let copied ← addOrLimit budget.usage.settlement total
    let peak ← addOrLimit copied replacement.scratchBytes
    if settlementReserveBytes < peak then .error .limit

/-- Both the final occupancy and the peak of old, new and scratch bytes. -/
def plan (budget : EpochStorageBudget) (scope : StorageScope) (replacement : Replacement) :
    Except BudgetError StorageReservation := do
  if !budget.ready then .error .reconcile
  if budget.scope ≠ scope then .error .scope
  let record := replacement.record
  let total ← record.footprint.total
  if total = 0 then .error .inventory
  let old := budget.records[record.id]?
  if old.any (·.document ≠ record.document) then .error .inventory
  if old.isNone ∧ budget.records.size = maxAccountedRecords then .error .recordLimit
  let finalUsage ← (budget.usage.minus (old.elim {} (·.footprint))).plus record.footprint
  finalUsage.check
  budget.checkPeak replacement old
  return ⟨record, finalUsage⟩

/-- The budget is closed before the reservation is handed out. -/
def reserve (budget : EpochStorageBudget) (scope : StorageScope) (replacement : Replacement) :
    Except BudgetError StorageReservation × EpochStorageBudget :=
  match budget.plan scope replacement with
  | .error error => (.error error, budget)
  | .ok reservation => (.ok reservation, { budget with ready := false })

/-- A reservation to flush an unchanged file; it charges no copy. -/
def reserveSync (budget : EpochStorageBudget) (scope : StorageScope) (record : StorageRecord) :
    Except BudgetError StorageReservation × EpochStorageBudget :=
  match budget.verifyRecord scope record.id (some record) with
  | (.error error, next) => (.error error, next)
  | (.ok (), next) => (.ok ⟨record, next.usage⟩, { next with ready := false })

/-- The document of the first record with settlement bytes. -/
def pinnedOf (records : ExtTreeMap Hash32 StorageRecord) : Option Hash32 :=
  ((treeValues records).find? (·.footprint.settlement ≠ 0)).map (·.document)

/-- The write has happened. -/
def commit (budget : EpochStorageBudget) (reservation : StorageReservation) : EpochStorageBudget :=
  let records := budget.records.insert reservation.record.id reservation.record
  { budget with
    records := records
    usage := reservation.finalUsage
    pinned := pinnedOf records
    ready := true }

/-- The write was not begun. -/
def cancelBeforeWrite (budget : EpochStorageBudget) : EpochStorageBudget :=
  { budget with ready := true }

/-- Reserve and commit the steps of a transaction on a private copy. -/
def preflightSequence (budget : EpochStorageBudget) (scope : StorageScope) :
    List Replacement → Except BudgetError Unit
  | [] => .ok ()
  | replacement :: rest =>
    match budget.reserve scope replacement with
    | (.error error, _) => .error error
    | (.ok reservation, held) => (held.commit reservation).preflightSequence scope rest

/-! ## The accounts -/

/-- The recorded bytes of a pool. -/
def recorded (records : ExtTreeMap Hash32 StorageRecord) (pool : Footprint → Nat) : Nat :=
  ((treeValues records).map fun record => pool record.footprint).sum

theorem recorded_insert (records : ExtTreeMap Hash32 StorageRecord) (record : StorageRecord)
    (pool : Footprint → Nat) :
    recorded (records.insert record.id record) pool
        + (records[record.id]?).elim 0 (fun old : StorageRecord => pool old.footprint)
      = recorded records pool + pool record.footprint :=
  sum_treeValues_insert records record.id record fun record => pool record.footprint

variable {records : ExtTreeMap Hash32 StorageRecord} {record : StorageRecord}

theorem le_recorded {id : Hash32} (h : records[id]? = some record) (pool : Footprint → Nat) :
    pool record.footprint ≤ recorded records pool := by
  apply List.le_sum_of_mem
  exact List.mem_map_of_mem (mem_treeValues.mpr ⟨id, h⟩)

/-- The usage is the sum of the recorded footprints. -/
structure Accounted (usage : Footprint) (records : ExtTreeMap Hash32 StorageRecord) : Prop where
  content : usage.content = recorded records (·.content)
  protocol : usage.protocol = recorded records (·.protocol)
  settlement : usage.settlement = recorded records (·.settlement)

variable {usage : Footprint}

theorem Accounted.le (h : Accounted usage records) {id : Hash32}
    (hget : records[id]? = some record) : record.footprint.Le usage where
  content := h.content ▸ le_recorded hget (·.content)
  protocol := h.protocol ▸ le_recorded hget (·.protocol)
  settlement := h.settlement ▸ le_recorded hget (·.settlement)

theorem Accounted.size_eq (h : Accounted usage records) :
    usage.size = recorded records Footprint.size := by
  unfold Footprint.size
  rw [h.content, h.protocol, h.settlement]
  simp only [recorded, ← List.sum_map_add]

/-- The usage after a record takes the place of an old one, or a new place. -/
def replaced (usage : Footprint) (old : Option StorageRecord) (record : StorageRecord) :
    Footprint :=
  let kept := usage.minus (old.elim {} (·.footprint))
  ⟨kept.content + record.footprint.content, kept.protocol + record.footprint.protocol,
    kept.settlement + record.footprint.settlement⟩

theorem Accounted.insert (h : Accounted usage records) (record : StorageRecord) :
    Accounted (replaced usage records[record.id]? record) (records.insert record.id record) := by
  have hcontent := recorded_insert records record (·.content)
  have hprotocol := recorded_insert records record (·.protocol)
  have hsettlement := recorded_insert records record (·.settlement)
  have husage := h.content
  have husage' := h.protocol
  have husage'' := h.settlement
  cases hold : records[record.id]? with
  | none =>
    rw [hold] at hcontent hprotocol hsettlement
    simp only [Option.elim_none] at hcontent hprotocol hsettlement
    constructor <;> simp only [replaced, Footprint.minus, Option.elim_none] <;> omega
  | some old =>
    have hle := h.le hold
    have hlec := hle.content
    have hlep := hle.protocol
    have hles := hle.settlement
    rw [hold] at hcontent hprotocol hsettlement
    simp only [Option.elim_some] at hcontent hprotocol hsettlement
    constructor <;> simp only [replaced, Footprint.minus, Option.elim_some] <;> omega

/-- All records with settlement bytes belong to the pinned document. -/
structure Pinned (pinned : Option Hash32) (records : ExtTreeMap Hash32 StorageRecord) : Prop where
  owner : ∀ (id : Hash32) (record : StorageRecord), records[id]? = some record →
    record.footprint.settlement ≠ 0 → pinned = some record.document
  held : ∀ document, pinned = some document → ∃ (id : Hash32) (record : StorageRecord),
    records[id]? = some record ∧ record.footprint.settlement ≠ 0 ∧ record.document = document

/-- The pin recomputed from records whose settlement bytes have one owner. -/
theorem pinned_pinnedOf {d : Hash32}
    (h : ∀ (id : Hash32) (record : StorageRecord), records[id]? = some record →
      record.footprint.settlement ≠ 0 → record.document = d) :
    Pinned (pinnedOf records) records := by
  unfold pinnedOf
  cases hfind : (treeValues records).find? (·.footprint.settlement ≠ 0) with
  | none =>
    refine ⟨fun id record hget hne => ?_, nofun⟩
    have hnone := List.find?_eq_none.mp hfind record (mem_treeValues.mpr ⟨id, hget⟩)
    exact absurd (decide_eq_true hne) hnone
  | some first =>
    have hne : first.footprint.settlement ≠ 0 := by simpa using List.find?_some hfind
    obtain ⟨id, hid⟩ := mem_treeValues.mp (List.mem_of_find?_eq_some hfind)
    constructor
    · intro other record hget hsettlement
      rw [Option.map_some, h id first hid hne, h other record hget hsettlement]
    · rintro document' hdocument
      exact ⟨id, first, hid, hne, Option.some.inj hdocument⟩

/-- The accounts of a budget. -/
structure Sound (budget : EpochStorageBudget) : Prop where
  accounted : Accounted budget.usage budget.records
  within : budget.usage.Within
  pinned : Pinned budget.pinned budget.records

/-! ## Inventories -/

variable {budget : EpochStorageBudget} {scope : StorageScope} {replacement : Replacement}

theorem addRecord_spec {next : EpochStorageBudget} (h : budget.addRecord record = .ok next) :
    budget.records[record.id]? = none ∧
      (record.footprint.settlement ≠ 0 → ∀ document ∈ budget.pinned,
        document = record.document) ∧
      next = { budget with
        records := budget.records.insert record.id record
        usage := replaced budget.usage none record
        pinned := if record.footprint.settlement ≠ 0 then some record.document
          else budget.pinned } ∧
      next.usage.Within := by
  unfold addRecord at h
  obtain ⟨-, h⟩ := guard_eq_ok.mp h
  obtain ⟨hfresh, h⟩ := guard_eq_ok.mp h
  obtain ⟨pinned, hpinned, h⟩ := bind_eq_ok.mp h
  obtain ⟨usage, husage, h⟩ := bind_eq_ok.mp h
  obtain ⟨⟨⟩, hcheck, h⟩ := bind_eq_ok.mp h
  have hwithin := Footprint.check_eq_ok.mp hcheck
  have hsum := Footprint.plus_eq_ok husage
  cases h
  refine ⟨by simpa using hfresh, ?_, ?_, hwithin⟩
  · intro hne document hdocument
    unfold pinRecord at hpinned
    rw [if_pos hne] at hpinned
    obtain ⟨hsame, -⟩ := guard_eq_ok.mp hpinned
    by_contra hother
    exact hsame (by simp [Option.mem_def.mp hdocument, hother])
  · have hpin : pinned = if record.footprint.settlement ≠ 0 then some record.document
        else budget.pinned := by
      unfold pinRecord at hpinned
      split at hpinned
      · rename_i hne
        obtain ⟨-, hok⟩ := guard_eq_ok.mp hpinned
        cases hok
        rw [if_pos hne]
      · rename_i hzero
        cases hpinned
        rw [if_neg hzero]
    rw [hsum, hpin]
    rfl

theorem Sound.addRecord {next : EpochStorageBudget} (h : budget.Sound)
    (hadd : budget.addRecord record = .ok next) : next.Sound := by
  obtain ⟨hfresh, howner, hnext, hwithin⟩ := addRecord_spec hadd
  have haccounted := h.accounted.insert record
  rw [hfresh] at haccounted
  subst hnext
  refine ⟨haccounted, hwithin, ?_⟩
  dsimp only
  constructor
  · intro id other hget hne
    rcases of_getElem?_insert hget with ⟨-, rfl⟩ | hget
    · rw [if_pos hne]
    · have hold := h.pinned.owner id other hget hne
      split
      · rename_i hsettlement
        rw [howner hsettlement other.document hold]
      · exact hold
  · intro document hdocument
    by_cases hne : record.footprint.settlement ≠ 0
    · rw [if_pos hne] at hdocument
      exact ⟨record.id, record, by rw [getElem?_insert_self_or, if_pos rfl], hne,
        Option.some.inj hdocument⟩
    · rw [if_neg hne] at hdocument
      obtain ⟨id, old, hget, hold, howned⟩ := h.pinned.held document hdocument
      have hid : record.id ≠ id := by
        rintro rfl
        rw [hfresh] at hget
        cases hget
      exact ⟨id, old, by rw [getElem?_insert_self_or, if_neg hid]; exact hget, hold, howned⟩

theorem sound_fromInventory {records : List StorageRecord}
    (h : fromInventory scope records = .ok budget) :
    budget.Sound := by
  have hempty : Sound ⟨scope, ∅, {}, none, true⟩ := by
    refine ⟨⟨rfl, rfl, rfl⟩, ⟨Nat.zero_le _, Nat.zero_le _, Nat.zero_le _⟩, ⟨?_, ?_⟩⟩
    · intro id record hget
      simp at hget
    · intro document hdocument
      cases hdocument
  unfold fromInventory at h
  generalize (⟨scope, ∅, {}, none, true⟩ : EpochStorageBudget) = start at h hempty
  induction records generalizing start with
  | nil =>
    cases h
    exact hempty
  | cons record rest ih =>
    rw [List.foldlM_cons] at h
    obtain ⟨next, hnext, hrest⟩ := bind_eq_ok.mp h
    exact ih next hrest (hempty.addRecord hnext)

/-! ## Grants -/

/-- What a granted replacement satisfies. -/
structure Planned (budget : EpochStorageBudget) (scope : StorageScope)
    (replacement : Replacement) (reservation : StorageReservation) : Prop where
  ready : budget.ready = true
  scope_eq : budget.scope = scope
  record : reservation.record = replacement.record
  owner : ∀ old, budget.records[replacement.record.id]? = some old →
    old.document = replacement.record.document
  final : reservation.finalUsage
    = replaced budget.usage budget.records[replacement.record.id]? replacement.record
  within : reservation.finalUsage.Within
  peak : budget.checkPeak replacement budget.records[replacement.record.id]? = .ok ()

variable {reservation : StorageReservation}

theorem planned_of_plan (h : budget.plan scope replacement = .ok reservation) :
    budget.Planned scope replacement reservation := by
  unfold plan at h
  obtain ⟨hready, h⟩ := guard_eq_ok.mp h
  obtain ⟨hscope, h⟩ := guard_eq_ok.mp h
  obtain ⟨total, -, h⟩ := bind_eq_ok.mp h
  obtain ⟨-, h⟩ := guard_eq_ok.mp h
  obtain ⟨howner, h⟩ := guard_eq_ok.mp h
  obtain ⟨-, h⟩ := guard_eq_ok.mp h
  obtain ⟨finalUsage, hfinal, h⟩ := bind_eq_ok.mp h
  obtain ⟨⟨⟩, hcheck, h⟩ := bind_eq_ok.mp h
  obtain ⟨⟨⟩, hpeak, h⟩ := bind_eq_ok.mp h
  cases h
  refine ⟨by simpa using hready, by simpa using hscope, rfl, ?_, Footprint.plus_eq_ok hfinal,
    Footprint.check_eq_ok.mp hcheck, hpeak⟩
  intro old hold
  by_contra hother
  exact howner (by simp [hold, hother])

/-- An ordinary write has all its bytes outside the settlement reserve. -/
structure OrdinaryPeak (budget : EpochStorageBudget) (replacement : Replacement) : Prop where
  settlement : replacement.record.footprint.settlement = 0
  old : ∀ old, budget.records[replacement.record.id]? = some old → old.footprint.settlement = 0
  content : budget.usage.content + replacement.record.footprint.content
    + replacement.scratchBytes ≤ contentAllowanceBytes
  protocol : budget.usage.protocol + replacement.record.footprint.protocol
    ≤ protocolAllowanceBytes

/-- A settlement write has its copy and its scratch inside the reserve of its document. -/
structure SettlementPeak (budget : EpochStorageBudget) (replacement : Replacement) : Prop where
  pinned : ∀ document ∈ budget.pinned, document = replacement.record.document
  settlement : budget.usage.settlement + replacement.record.footprint.size
    + replacement.scratchBytes ≤ settlementReserveBytes

theorem ordinaryPeak_of_check (hpurpose : replacement.purpose = .ordinary)
    (h : budget.checkPeak replacement budget.records[replacement.record.id]? = .ok ()) :
    budget.OrdinaryPeak replacement := by
  unfold checkPeak at h
  rw [hpurpose] at h
  obtain ⟨hbusy, h⟩ := guard_eq_ok.mp h
  obtain ⟨copied, hcopied, h⟩ := bind_eq_ok.mp h
  obtain ⟨peak, hpeak, h⟩ := bind_eq_ok.mp h
  have hwithin := Footprint.check_eq_ok.mp h
  rw [Footprint.plus_eq_ok hpeak, Footprint.plus_eq_ok hcopied] at hwithin
  obtain ⟨hnew, hold⟩ := not_or.mp hbusy
  refine ⟨not_not.mp hnew, ?_, hwithin.content, hwithin.protocol⟩
  intro old hget
  by_contra hne
  exact hold (by simp [hget, hne])

theorem settlementPeak_of_check (hpurpose : replacement.purpose = .settlement)
    (h : budget.checkPeak replacement budget.records[replacement.record.id]? = .ok ()) :
    budget.SettlementPeak replacement := by
  unfold checkPeak at h
  rw [hpurpose] at h
  obtain ⟨hbusy, h⟩ := guard_eq_ok.mp h
  obtain ⟨total, htotal, h⟩ := bind_eq_ok.mp h
  obtain ⟨copied, hcopied, h⟩ := bind_eq_ok.mp h
  obtain ⟨peak, hpeak, h⟩ := bind_eq_ok.mp h
  obtain ⟨hfits, -⟩ := guard_eq_ok.mp h
  constructor
  · intro document hdocument
    by_contra hother
    exact hbusy (by simp [Option.mem_def.mp hdocument, hother])
  · rw [addOrLimit_eq_ok hpeak, addOrLimit_eq_ok hcopied, Footprint.total_eq_ok htotal] at hfits
    exact Nat.le_of_not_lt hfits

/-- All current records, the complete new copy and its scratch fit at the same time. -/
theorem Sound.peak_le (h : budget.Sound) (hplanned : budget.Planned scope replacement reservation) :
    budget.usage.size + replacement.record.footprint.size + replacement.scratchBytes
      ≤ maxStorageBytes := by
  have hcontent := h.within.content
  have hprotocol := h.within.protocol
  have hsettlement := h.within.settlement
  rw [← allowances_total]
  cases hpurpose : replacement.purpose with
  | ordinary =>
    have hpeak := ordinaryPeak_of_check hpurpose hplanned.peak
    have hc := hpeak.content
    have hp := hpeak.protocol
    have hs := hpeak.settlement
    unfold Footprint.size
    omega
  | settlement =>
    have hs := (settlementPeak_of_check hpurpose hplanned.peak).settlement
    unfold Footprint.size at hs ⊢
    omega

/-- After a granted write the settlement bytes still have one owner. -/
theorem Sound.owner_of_planned (h : budget.Sound)
    (hplanned : budget.Planned scope replacement reservation) :
    ∃ document, ∀ (id : Hash32) (record : StorageRecord),
      (budget.records.insert replacement.record.id replacement.record)[id]? = some record →
      record.footprint.settlement ≠ 0 → record.document = document := by
  cases hpurpose : replacement.purpose with
  | ordinary =>
    have hpeak := ordinaryPeak_of_check hpurpose hplanned.peak
    refine ⟨budget.pinned.getD 0, fun id record hget hne => ?_⟩
    rcases of_getElem?_insert hget with ⟨-, rfl⟩ | hget
    · exact absurd hpeak.settlement hne
    · rw [h.pinned.owner id record hget hne, Option.getD_some]
  | settlement =>
    have hpeak := settlementPeak_of_check hpurpose hplanned.peak
    refine ⟨replacement.record.document, fun id record hget hne => ?_⟩
    rcases of_getElem?_insert hget with ⟨-, rfl⟩ | hget
    · rfl
    · exact hpeak.pinned record.document (h.pinned.owner id record hget hne)

theorem Sound.commit_planned (h : budget.Sound)
    (hplanned : budget.Planned scope replacement reservation) :
    (budget.commit reservation).Sound := by
  obtain ⟨document, howner⟩ := h.owner_of_planned hplanned
  unfold commit
  rw [hplanned.record]
  refine ⟨?_, hplanned.within, pinned_pinnedOf howner⟩
  dsimp only
  rw [hplanned.final]
  exact h.accounted.insert replacement.record

/-! ## Runs -/

/-- How a reservation ends; a drop and a forget are both a loss. -/
inductive Fate where
  | commit
  | cancel
  | lost
deriving DecidableEq

/-- What happens to a budget. -/
inductive BudgetEvent where
  | reconcile (scope : StorageScope) (records : List StorageRecord)
  | verifyRecord (scope : StorageScope) (id : Hash32) (observed : Option StorageRecord)
  | invalidate
  | reserve (scope : StorageScope) (replacement : Replacement) (fate : Fate)
  | reserveSync (scope : StorageScope) (record : StorageRecord) (fate : Fate)
deriving DecidableEq

/-- The end of an answered reservation. -/
def conclude (fate : Fate) :
    Except BudgetError StorageReservation × EpochStorageBudget → EpochStorageBudget
  | (.error _, next) => next
  | (.ok reservation, held) =>
    match fate with
    | .commit => held.commit reservation
    | .cancel => held.cancelBeforeWrite
    | .lost => held

def step (budget : EpochStorageBudget) : BudgetEvent → EpochStorageBudget
  | .reconcile scope records => (budget.reconcile scope records).2
  | .verifyRecord scope id observed => (budget.verifyRecord scope id observed).2
  | .invalidate => budget.invalidate
  | .reserve scope replacement fate => conclude fate (budget.reserve scope replacement)
  | .reserveSync scope record fate => conclude fate (budget.reserveSync scope record)

/-- Only the readiness of a budget changed. -/
theorem Sound.withReady (h : budget.Sound) (ready : Bool) :
    Sound { budget with ready := ready } := ⟨h.accounted, h.within, h.pinned⟩

theorem reserve_spec (budget : EpochStorageBudget) (scope : StorageScope)
    (replacement : Replacement) :
    (∃ error, budget.reserve scope replacement = (.error error, budget)) ∨
      ∃ reservation, budget.Planned scope replacement reservation ∧
        budget.reserve scope replacement = (.ok reservation, { budget with ready := false }) := by
  unfold reserve
  cases hplan : budget.plan scope replacement with
  | error error => exact .inl ⟨error, rfl⟩
  | ok reservation => exact .inr ⟨reservation, planned_of_plan hplan, rfl⟩

theorem Sound.commit_sync (h : budget.Sound) (hget : budget.records[record.id]? = some record)
    (ready : Bool) : (commit { budget with ready := ready } ⟨record, budget.usage⟩).Sound := by
  unfold commit
  dsimp only
  rw [insert_of_get hget]
  refine ⟨h.accounted, h.within, pinned_pinnedOf (d := budget.pinned.getD 0) ?_⟩
  intro id other hother hne
  rw [h.pinned.owner id other hother hne, Option.getD_some]

/-- A reservation is refused and opens no budget, or it is granted by a ready one and its commit
keeps the accounts. -/
inductive Answered (budget : EpochStorageBudget) :
    Except BudgetError StorageReservation × EpochStorageBudget → Prop
  | refused (error : BudgetError) (ready : Bool) (hready : ready = true → budget.ready = true) :
      Answered budget (.error error, { budget with ready := ready })
  | granted (reservation : StorageReservation) (hready : budget.ready = true)
      (hcommit : budget.Sound → (commit { budget with ready := false } reservation).Sound) :
      Answered budget (.ok reservation, { budget with ready := false })

theorem answered_reserve (budget : EpochStorageBudget) (scope : StorageScope)
    (replacement : Replacement) : Answered budget (budget.reserve scope replacement) := by
  rcases reserve_spec budget scope replacement with ⟨error, heq⟩ | ⟨reservation, hplanned, heq⟩
  · rw [heq]
    exact .refused error budget.ready id
  · rw [heq]
    exact .granted reservation hplanned.ready fun h => h.commit_planned hplanned

/-- A sync reservation is for a record exactly as it is accounted. -/
theorem answered_reserveSync (budget : EpochStorageBudget) (scope : StorageScope)
    (record : StorageRecord) : Answered budget (budget.reserveSync scope record) := by
  unfold reserveSync verifyRecord
  by_cases hready : budget.ready = true
  · by_cases hscope : budget.scope ≠ scope
    · rw [if_neg (by simp [hready]), if_pos hscope]
      exact .refused .scope budget.ready id
    · rw [if_neg (by simp [hready]), if_neg hscope]
      by_cases hmatch : budget.records[record.id]? = some record
      · rw [if_neg (by simp [hmatch])]
        exact .granted ⟨record, budget.usage⟩ hready fun h => h.commit_sync hmatch false
      · rw [if_pos (by simp [hmatch])]
        exact .refused .inventory false fun _ => hready
  · rw [if_pos (by simp [hready])]
    exact .refused .reconcile budget.ready id

section Answered

variable {answer : Except BudgetError StorageReservation × EpochStorageBudget}

theorem Sound.conclude (h : budget.Sound) (hanswer : Answered budget answer) (fate : Fate) :
    (conclude fate answer).Sound := by
  cases hanswer with
  | refused error ready => exact h.withReady ready
  | granted reservation hready hcommit =>
    cases fate with
    | commit => exact hcommit h
    | cancel => exact h.withReady true
    | lost => exact h.withReady false

theorem Answered.of_ok (h : Answered budget answer)
    (hgrant : ∃ reservation, answer.1 = .ok reservation) :
    budget.ready = true ∧ (conclude .lost answer).ready = false := by
  cases h with
  | refused => cases hgrant.choose_spec
  | granted reservation hready => exact ⟨hready, rfl⟩

theorem Answered.closed (h : Answered budget answer) (hclosed : budget.ready = false)
    (fate : Fate) : (conclude fate answer).ready = false := by
  cases h with
  | refused error ready hready => exact Bool.eq_false_iff.mpr (mt hready (by simp [hclosed]))
  | granted reservation hready =>
    rw [hready] at hclosed
    cases hclosed

end Answered

/-- Every call keeps the accounts. -/
theorem Sound.step (h : budget.Sound) (event : BudgetEvent) :
    (budget.step event).Sound := by
  cases event with
  | reconcile scope records =>
    unfold EpochStorageBudget.step reconcile
    dsimp only
    split
    · exact h.withReady false
    · split
      · exact h.withReady false
      · rename_i next hnext
        exact sound_fromInventory hnext
  | verifyRecord scope id observed =>
    unfold EpochStorageBudget.step verifyRecord
    dsimp only
    split
    · exact h
    · split
      · exact h
      · split
        · exact h.withReady false
        · exact h
  | invalidate => exact h.withReady false
  | reserve scope replacement fate => exact h.conclude (answered_reserve ..) fate
  | reserveSync scope record fate => exact h.conclude (answered_reserveSync ..) fate

theorem run_sound (h : budget.Sound) (events : List BudgetEvent) :
    (run step budget events).Sound := by
  induction events generalizing budget with
  | nil => exact h
  | cons event later ih => exact ih (h.step event)

/-! ## Closed budgets -/

/-- The call is a reconciliation that succeeds. -/
def Reopens (budget : EpochStorageBudget) : BudgetEvent → Prop
  | .reconcile scope records => (budget.reconcile scope records).1 = .ok ()
  | _ => False

/-- The call grants a reservation that is then lost. -/
def Loses (budget : EpochStorageBudget) : BudgetEvent → Prop
  | .reserve scope replacement .lost =>
    ∃ reservation, (budget.reserve scope replacement).1 = .ok reservation
  | .reserveSync scope record .lost =>
    ∃ reservation, (budget.reserveSync scope record).1 = .ok reservation
  | _ => False

/-- The call is a reservation that is granted. -/
def Grants (budget : EpochStorageBudget) : BudgetEvent → Prop
  | .reserve scope replacement _ =>
    ∃ reservation, (budget.reserve scope replacement).1 = .ok reservation
  | .reserveSync scope record _ =>
    ∃ reservation, (budget.reserveSync scope record).1 = .ok reservation
  | _ => False

theorem ready_of_grants {event : BudgetEvent} (h : budget.Grants event) : budget.ready = true := by
  cases event with
  | reserve scope replacement fate => exact ((answered_reserve ..).of_ok h).1
  | reserveSync scope record fate => exact ((answered_reserveSync ..).of_ok h).1
  | _ => cases h

theorem closed_of_loses {event : BudgetEvent} (h : budget.Loses event) :
    (budget.step event).ready = false := by
  cases event with
  | reserve scope replacement fate =>
    cases fate with
    | lost => exact ((answered_reserve ..).of_ok h).2
    | commit | cancel => cases h
  | reserveSync scope record fate =>
    cases fate with
    | lost => exact ((answered_reserveSync ..).of_ok h).2
    | commit | cancel => cases h
  | _ => cases h

/-- Only a successful reconciliation opens a closed budget. -/
theorem closed_step (hclosed : budget.ready = false) {event : BudgetEvent}
    (h : ¬budget.Reopens event) : (budget.step event).ready = false := by
  cases event with
  | reconcile scope records =>
    unfold Reopens reconcile at h
    unfold step reconcile
    dsimp only at h ⊢
    split
    · rfl
    · rename_i hscope
      rw [if_neg hscope] at h
      split
      · rfl
      · rename_i next hnext
        rw [hnext] at h
        exact absurd rfl h
  | verifyRecord scope id observed =>
    unfold step verifyRecord
    dsimp only
    rw [if_pos (by simp [hclosed])]
    exact hclosed
  | invalidate => rfl
  | reserve scope replacement fate => exact (answered_reserve ..).closed hclosed fate
  | reserveSync scope record fate => exact (answered_reserveSync ..).closed hclosed fate

/-- After a lost reservation nothing is granted before a successful reconciliation. -/
theorem closed_after_loss (hclosed : budget.ready = false) {later : List BudgetEvent}
    (h : ∀ before event after, later = before ++ event :: after →
      ¬(run step budget before).Reopens event) :
    (run step budget later).ready = false := by
  induction later generalizing budget with
  | nil => exact hclosed
  | cons event later ih =>
    refine ih (closed_step hclosed (h [] event later rfl)) ?_
    rintro before next after rfl
    exact h (event :: before) next after rfl

/-! ## Preflight -/

/-- Reserve and commit every replacement in order. -/
def commitAll (scope : StorageScope) (steps : List Replacement) : List BudgetEvent :=
  steps.map fun replacement => .reserve scope replacement .commit

theorem preflight_grants {steps : List Replacement}
    (h : budget.preflightSequence scope steps = .ok ()) :
    ∀ before event after, commitAll scope steps = before ++ event :: after →
      (run step budget before).Grants event := by
  induction steps generalizing budget with
  | nil =>
    intro before event after heq
    simp [commitAll] at heq
  | cons replacement rest ih =>
    intro before event after heq
    unfold preflightSequence at h
    rcases reserve_spec budget scope replacement with ⟨error, hreserve⟩ |
      ⟨reservation, -, hreserve⟩
    · rw [hreserve] at h
      cases h
    · rw [hreserve] at h
      cases before with
      | nil =>
        obtain ⟨rfl, -⟩ := List.cons.inj heq
        rw [run_nil]
        exact ⟨reservation, by rw [hreserve]⟩
      | cons first before =>
        obtain ⟨rfl, hrest⟩ := List.cons.inj heq
        have hnext := ih h before event after hrest
        have hstep : budget.step (.reserve scope replacement .commit)
            = commit { budget with ready := false } reservation := by
          rw [step, hreserve]
          rfl
        rw [← hstep] at hnext
        exact hnext

/-! ## The budget over every history -/

/-- In every history of a budget the usage is the sum of the recorded footprints, an accounted
record never holds more than the usage it is subtracted from, every pool is within its allowance
and the settlement bytes belong to the pinned document. A granted replacement fits with all
current records, its complete copy and its scratch, and an ordinary one outside the settlement
reserve. A refused reservation changes no counter. After a lost reservation nothing is granted
before a successful reconciliation. What a preflight accepts is granted in order. -/
theorem budget_holds (scope : StorageScope) (records : List StorageRecord)
    (start : EpochStorageBudget) (hstart : fromInventory scope records = .ok start)
    (events : List BudgetEvent) :
    let budget := run step start events
    Accounted budget.usage budget.records ∧
      (∀ (id : Hash32) (record : StorageRecord), budget.records[id]? = some record →
        record.footprint.Le budget.usage) ∧
      budget.usage.Within ∧ Pinned budget.pinned budget.records ∧
      (∀ scope replacement reservation next,
        budget.reserve scope replacement = (.ok reservation, next) →
        recorded budget.records Footprint.size + replacement.record.footprint.size
            + replacement.scratchBytes ≤ maxStorageBytes ∧
          (replacement.purpose = .ordinary →
            budget.usage.content + replacement.record.footprint.content
                + replacement.scratchBytes ≤ contentAllowanceBytes ∧
              budget.usage.protocol + replacement.record.footprint.protocol
                ≤ protocolAllowanceBytes)) ∧
      (∀ scope replacement error next,
        budget.reserve scope replacement = (.error error, next) → next = budget) ∧
      (∀ past event later, events = past ++ event :: later → (run step start past).Loses event →
        (∀ before other after, later = before ++ other :: after →
          ¬(run step start (past ++ event :: before)).Reopens other) →
        ∀ next, ¬budget.Grants next) ∧
      (∀ scope steps, budget.preflightSequence scope steps = .ok () →
        ∀ before event after, commitAll scope steps = before ++ event :: after →
          (run step budget before).Grants event) := by
  intro budget
  have hsound : budget.Sound := run_sound (sound_fromInventory hstart) events
  refine ⟨hsound.accounted, fun id record hget => hsound.accounted.le hget, hsound.within,
    hsound.pinned, ?_, ?_, ?_, fun scope steps => preflight_grants⟩
  · intro scope replacement reservation next hgrant
    rcases reserve_spec budget scope replacement with ⟨error, heq⟩ | ⟨granted, hplanned, -⟩
    · rw [heq] at hgrant
      cases hgrant
    · refine ⟨?_, fun hpurpose => ?_⟩
      · rw [← hsound.accounted.size_eq]
        exact hsound.peak_le hplanned
      · have hpeak := ordinaryPeak_of_check hpurpose hplanned.peak
        exact ⟨hpeak.content, hpeak.protocol⟩
  · intro scope replacement error next hrefused
    rcases reserve_spec budget scope replacement with ⟨other, heq⟩ | ⟨granted, -, heq⟩
    · rw [heq] at hrefused
      exact (Prod.mk.inj hrefused).2.symm
    · rw [heq] at hrefused
      cases hrefused
  · intro past event later hevents hloses hopened next hgrants
    have hclosed : budget.ready = false := by
      have hlost := closed_of_loses hloses
      have hbudget : budget = run step ((run step start past).step event) later := by
        change run step start events = _
        rw [hevents, run_append]
        rfl
      rw [hbudget]
      refine closed_after_loss hlost ?_
      intro before other after hlater
      have hsplit := hopened before other after hlater
      rw [run_append] at hsplit
      exact hsplit
    rw [ready_of_grants hgrants] at hclosed
    cases hclosed

/-- A replacement that is granted at its peak and committed. -/
theorem budget_holds_one_write :
    let scope : StorageScope := ⟨7, [1]⟩
    let old : StorageRecord := ⟨1, 9, { content := 100 }⟩
    let new : StorageRecord := ⟨1, 9, { content := 40 }⟩
    ∃ start, fromInventory scope [old] = .ok start ∧
      Accounted (run step start [.reserve scope ⟨new, 5, .settlement⟩ .commit]).usage
        (run step start [.reserve scope ⟨new, 5, .settlement⟩ .commit]).records ∧
      (run step start [.reserve scope ⟨new, 5, .settlement⟩ .commit]).usage
        = { content := 40 } := by
  refine ⟨_, rfl, (budget_holds ⟨7, [1]⟩ [⟨1, 9, { content := 100 }⟩] _ rfl _).1, ?_⟩
  decide +kernel

end EpochStorageBudget

end Mewtual
