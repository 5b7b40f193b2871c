import Mewtual.Doc.AncestryIndex
import Mewtual.Doc.SignedOp
import Mewtual.Lib.ClosureOrder

/-!
# The signed operations of a closure

A close names heads of the document's graph. The operations of everything behind them are listed in
an order that does not depend on the log they were received in: after their dependencies, and by
hash where several could come next. The seed of the checkpoint is the only change without an
operation.

Parsing the bytes of a change belongs to the document library and is a parameter.

Main results:

- Theorem {lit}`SignedDoc.signedOps_canonical`: one operation for each change, after its
  dependencies, and the same list from any log with the same operations.
-/

namespace Mewtual

open Std

/-- The parts of an encrypted document that a closure reads. -/
structure SignedDoc where
  graph : DepGraph ChangeHash
  /-- Hash of the seed the document was opened with. -/
  checkpoint : Option ChangeHash
  log : List SignedOp

namespace SignedDoc

variable (parse : Bytes → Except String ChangeHash)

/-- The closure of the heads without the seed, which must be in it. -/
def selectHashes (doc : SignedDoc) (heads : List ChangeHash) (unsignedSeed : Option ChangeHash) :
    Except ReplError (ExtTreeSet ChangeHash) :=
  match doc.graph.walkAll heads.reverse ∅ with
  | none => .error .malformed
  | some wanted =>
    match unsignedSeed with
    | none => .ok wanted
    | some seed => if seed ∉ wanted then .error .malformed else .ok (wanted.erase seed)

/-- Two envelopes of one change are refused. -/
def addOperation (selected : ExtTreeSet ChangeHash) (operations : ExtTreeMap ChangeHash SignedOp)
    (op : SignedOp) : Except ReplError (ExtTreeMap ChangeHash SignedOp) :=
  match parse op.delta with
  | .error reason => .error (.automerge reason)
  | .ok change =>
    if change ∉ selected then .ok operations
    else if op.domainOp = none ∨ change ∈ operations then .error .malformed
    else .ok (operations.insert change op)

/-- The signed operation of a change. -/
def operationOf (operations : ExtTreeMap ChangeHash SignedOp) (hash : ChangeHash) :
    Except ReplError SignedOp :=
  match operations[hash]? with
  | none => .error .malformed
  | some op => .ok op

/-- The signed operations of the closure of heads, dependencies first. -/
def signedOpsForHeads (doc : SignedDoc) (heads : List ChangeHash)
    (unsignedSeed : Option ChangeHash) : Except ReplError (List SignedOp) :=
  if unsignedSeed ≠ doc.checkpoint then .error .epochScope
  else do
    let selected ← doc.selectHashes heads unsignedSeed
    let operations ← doc.log.foldlM (addOperation parse selected) ∅
    if operations.size ≠ selected.size then .error .malformed
    else
      -- the operations left are those of the selected hashes that were not taken
      match order selected doc.graph.deps selected.size
        (.start selected doc.graph.deps) selected with
      | none => .error .malformed
      | some (listed, left) => do
        let out ← listed.mapM (operationOf operations)
        if left.isEmpty = false then .error .malformed else .ok out

/-! ## The operations of the selected changes -/

/-- The selected change an operation carries. -/
def carried (selected : ExtTreeSet ChangeHash) (op : SignedOp) : Option (ChangeHash × SignedOp) :=
  match parse op.delta with
  | .error _ => none
  | .ok change => if change ∈ selected then some (change, op) else none

variable {selected : ExtTreeSet ChangeHash}

theorem carried_eq_some {op found : SignedOp} {change : ChangeHash} :
    carried parse selected op = some (change, found) ↔
      found = op ∧ parse op.delta = .ok change ∧ change ∈ selected := by
  unfold carried
  split
  · rename_i hparse
    simp [hparse]
  · rename_i hash hparse
    rw [hparse]
    split
    · rename_i hmem
      constructor
      · intro h
        cases h
        exact ⟨rfl, rfl, hmem⟩
      · rintro ⟨rfl, hsame, -⟩
        cases hsame
        rfl
    · rename_i hmem
      constructor
      · intro h
        cases h
      · rintro ⟨-, hsame, hchange⟩
        cases hsame
        exact absurd hchange hmem

/-- The selected operations of a log, with their changes. -/
def pairs (selected : ExtTreeSet ChangeHash) (log : List SignedOp) : List (ChangeHash × SignedOp) :=
  log.filterMap (carried parse selected)

/-- What gathering the operations of a log checks, and what it gives. -/
theorem gather_eq_ok {log : List SignedOp} {start operations : ExtTreeMap ChangeHash SignedOp}
    (h : log.foldlM (addOperation parse selected) start = .ok operations) :
    (∀ op ∈ log, ∃ change, parse op.delta = .ok change) ∧
      (∀ pair ∈ pairs parse selected log, pair.2.domainOp ≠ none ∧ pair.1 ∉ start) ∧
      ((pairs parse selected log).map Prod.fst).Nodup ∧
      operations = insertAll start (pairs parse selected log) := by
  induction log generalizing start with
  | nil =>
    cases h
    exact ⟨fun op hop => absurd hop List.not_mem_nil, fun pair hpair =>
      absurd hpair List.not_mem_nil,
      List.nodup_nil, rfl⟩
  | cons op log ih =>
    rw [List.foldlM_cons] at h
    obtain ⟨middle, hmiddle, h⟩ := bind_eq_ok.mp h
    obtain ⟨hparsed, hpairs, hdistinct, hoperations⟩ := ih h
    unfold addOperation at hmiddle
    split at hmiddle
    · cases hmiddle
    rename_i change hparse
    have hall : ∀ other ∈ op :: log, ∃ change, parse other.delta = .ok change :=
      List.forall_mem_cons.mpr ⟨⟨change, hparse⟩, hparsed⟩
    refine ⟨hall, ?_⟩
    split at hmiddle
    · rename_i hother
      cases hmiddle
      have hnone : carried parse selected op = none := by
        unfold carried
        rw [hparse]
        exact if_neg hother
      have hsame : pairs parse selected (op :: log) = pairs parse selected log :=
        List.filterMap_cons_none hnone
      rw [hsame]
      exact ⟨hpairs, hdistinct, hoperations⟩
    · rename_i hselected
      obtain ⟨hfresh, hmiddle⟩ := guard_eq_ok.mp hmiddle
      obtain ⟨hdomain, hnew⟩ := not_or.mp hfresh
      cases hmiddle
      have hsome : carried parse selected op = some (change, op) :=
        (carried_eq_some parse).mpr ⟨rfl, hparse, not_not.mp hselected⟩
      have hsame : pairs parse selected (op :: log) = (change, op) :: pairs parse selected log :=
        List.filterMap_cons_some hsome
      have hlater : ∀ pair ∈ pairs parse selected log, pair.1 ≠ change ∧ pair.1 ∉ start := by
        intro pair hpair
        have hnot := (hpairs pair hpair).2
        rw [ExtTreeMap.mem_insert, not_or, LawfulEqCmp.compare_eq_iff_eq] at hnot
        exact ⟨Ne.symm hnot.1, hnot.2⟩
      rw [hsame]
      refine ⟨List.forall_mem_cons.mpr ⟨⟨hdomain, hnew⟩, fun pair hpair =>
        ⟨(hpairs pair hpair).1, (hlater pair hpair).2⟩⟩, ?_, hoperations⟩
      rw [List.map_cons, List.nodup_cons]
      refine ⟨fun hmem => ?_, hdistinct⟩
      obtain ⟨pair, hpair, hfst⟩ := List.mem_map.mp hmem
      exact (hlater pair hpair).1 hfst

theorem gather_of_pairs {log : List SignedOp} {start : ExtTreeMap ChangeHash SignedOp}
    (hparsed : ∀ op ∈ log, ∃ change, parse op.delta = .ok change)
    (hpairs : ∀ pair ∈ pairs parse selected log, pair.2.domainOp ≠ none ∧ pair.1 ∉ start)
    (hdistinct : ((pairs parse selected log).map Prod.fst).Nodup) :
    log.foldlM (addOperation parse selected) start =
      .ok (insertAll start (pairs parse selected log)) := by
  induction log generalizing start with
  | nil => rfl
  | cons op log ih =>
    obtain ⟨⟨change, hparse⟩, hparsed⟩ := List.forall_mem_cons.mp hparsed
    rw [List.foldlM_cons]
    by_cases hselected : change ∈ selected
    · have hsame : pairs parse selected (op :: log) = (change, op) :: pairs parse selected log :=
        List.filterMap_cons_some ((carried_eq_some parse).mpr ⟨rfl, hparse, hselected⟩)
      rw [hsame] at hpairs hdistinct ⊢
      obtain ⟨⟨hdomain, hnew⟩, hpairs⟩ := List.forall_mem_cons.mp hpairs
      rw [List.map_cons, List.nodup_cons] at hdistinct
      have hadd : addOperation parse selected start op = .ok (start.insert change op) := by
        unfold addOperation
        rw [hparse]
        dsimp only
        rw [if_neg (not_not.mpr hselected), if_neg (not_or.mpr ⟨hdomain, hnew⟩)]
      rw [hadd, ok_bind]
      refine ih hparsed (fun pair hpair => ⟨(hpairs pair hpair).1, ?_⟩) hdistinct.2
      rw [ExtTreeMap.mem_insert, not_or, LawfulEqCmp.compare_eq_iff_eq]
      refine ⟨fun hsame => hdistinct.1 (List.mem_map.mpr ⟨pair, hpair, hsame.symm⟩),
        (hpairs pair hpair).2⟩
    · have hnone : carried parse selected op = none := by
        unfold carried
        rw [hparse]
        exact if_neg hselected
      have hsame : pairs parse selected (op :: log) = pairs parse selected log :=
        List.filterMap_cons_none hnone
      rw [hsame] at hpairs hdistinct ⊢
      have hadd : addOperation parse selected start op = .ok start := by
        unfold addOperation
        rw [hparse]
        exact if_pos hselected
      rw [hadd, ok_bind]
      exact ih hparsed hpairs hdistinct

theorem count_pairs (selected : ExtTreeSet ChangeHash) (log : List SignedOp) (change : ChangeHash)
    (op : SignedOp) :
    (pairs parse selected log).count (change, op) =
      if parse op.delta = .ok change ∧ change ∈ selected then log.count op else 0 := by
  induction log with
  | nil => simp [pairs]
  | cons head log ih =>
    cases hcarried : carried parse selected head with
    | none =>
      have hsame : pairs parse selected (head :: log) = pairs parse selected log :=
        List.filterMap_cons_none hcarried
      rw [hsame, ih, List.count_cons]
      split
      · rename_i hop
        rw [if_neg, Nat.add_zero]
        rintro hhead
        have hsome := (carried_eq_some parse).mpr ⟨rfl, hop.1, hop.2⟩
        rw [beq_iff_eq.mp hhead, hsome] at hcarried
        cases hcarried
      · rfl
    | some pair =>
      obtain ⟨found, carrier⟩ := pair
      obtain ⟨rfl, hparse, hselected⟩ := (carried_eq_some parse).mp hcarried
      have hsame : pairs parse selected (carrier :: log) =
          (found, carrier) :: pairs parse selected log := List.filterMap_cons_some hcarried
      rw [hsame, List.count_cons, List.count_cons, ih]
      by_cases hop : carrier = op
      · subst hop
        by_cases hfound : found = change
        · subst hfound
          simp [hparse, hselected]
        · simp [hparse, hfound]
      · simp [hop]

/-- Logs with the same operations of the selected changes give the same map. -/
theorem gather_same {log other : List SignedOp} {operations : ExtTreeMap ChangeHash SignedOp}
    (h : log.foldlM (addOperation parse selected) ∅ = .ok operations)
    (hparsed : ∀ op ∈ other, ∃ change, parse op.delta = .ok change)
    (hcount : ∀ (op : SignedOp) (change : ChangeHash), parse op.delta = .ok change →
      change ∈ selected → other.count op = log.count op) :
    other.foldlM (addOperation parse selected) ∅ = .ok operations := by
  obtain ⟨-, hpairs, hdistinct, rfl⟩ := gather_eq_ok parse h
  have hperm : (pairs parse selected other).Perm (pairs parse selected log) := by
    rw [List.perm_iff_count]
    rintro ⟨change, op⟩
    rw [count_pairs, count_pairs]
    split
    · rename_i hop
      exact hcount op change hop.1 hop.2
    · rfl
  have hdistinct' : ((pairs parse selected other).map Prod.fst).Nodup :=
    ((hperm.map Prod.fst).nodup_iff).mpr hdistinct
  rw [gather_of_pairs parse hparsed (fun pair hpair => hpairs pair (hperm.subset hpair)) hdistinct']
  have hone : ∀ {list : List (ChangeHash × SignedOp)}, (list.map Prod.fst).Nodup →
      ∀ (change : ChangeHash) (left right : SignedOp), (change, left) ∈ list →
        (change, right) ∈ list → left = right := by
    intro list hlist change left right hleft hright
    exact congrArg Prod.snd (List.inj_on_of_nodup_map hlist hleft hright rfl)
  congr 1
  apply treeMap_ext
  intro change op
  rw [getElem?_insertAll (hone hdistinct' change), getElem?_insertAll (hone hdistinct change),
    hperm.mem_iff]

/-! ## The canonical list -/

variable {doc : SignedDoc} {heads : List ChangeHash} {seed : Option ChangeHash}

/-- What a successful run has found. -/
theorem signedOps_eq_ok {out : List SignedOp} : doc.signedOpsForHeads parse heads seed = .ok out ↔
      seed = doc.checkpoint ∧ ∃ selected operations listed,
        doc.selectHashes heads seed = .ok selected ∧
        doc.log.foldlM (addOperation parse selected) ∅ = .ok operations ∧
        operations.size = selected.size ∧
        order selected doc.graph.deps selected.size (.start selected doc.graph.deps) selected =
          some (listed, ∅) ∧ listed.mapM (operationOf operations) = .ok out := by
  unfold signedOpsForHeads
  constructor
  · intro h
    obtain ⟨hseed, h⟩ := guard_eq_ok.mp h
    obtain ⟨selected, hselected, h⟩ := bind_eq_ok.mp h
    obtain ⟨operations, hoperations, h⟩ := bind_eq_ok.mp h
    obtain ⟨hsize, h⟩ := guard_eq_ok.mp h
    split at h
    · cases h
    rename_i listed left horder
    obtain ⟨found, hfound, h⟩ := bind_eq_ok.mp h
    obtain ⟨hleft, h⟩ := guard_eq_ok.mp h
    cases h
    have hempty : left = ∅ := by
      rw [Bool.not_eq_false] at hleft
      exact ExtTreeSet.isEmpty_iff.mp hleft
    subst hempty
    exact ⟨not_not.mp hseed, selected, operations, listed, hselected, hoperations, not_not.mp hsize,
      horder, hfound⟩
  · rintro ⟨hseed, selected, operations, listed, hselected, hoperations, hsize, horder, hfound⟩
    rw [if_neg (not_not.mpr hseed), hselected, ok_bind, hoperations, ok_bind,
      if_neg (not_not.mpr hsize), horder]
    dsimp only
    rw [hfound, ok_bind, if_neg]
    simp

/-- The changes behind the heads. -/
def InClosure (doc : SignedDoc) (heads : List ChangeHash) (hash : ChangeHash) : Prop :=
  ∃ head ∈ heads, doc.graph.Behind head hash

theorem selectHashes_eq_ok (h : doc.selectHashes heads seed = .ok selected) :
    ∃ wanted, doc.graph.walkAll heads.reverse ∅ = some wanted ∧
      (∀ hash, hash ∈ wanted ↔ doc.InClosure heads hash) ∧ (∀ hash ∈ seed, hash ∈ wanted) ∧
      ∀ hash, hash ∈ selected ↔ hash ∈ wanted ∧ some hash ≠ seed := by
  unfold selectHashes at h
  split at h
  · cases h
  rename_i wanted hwalk
  have hclosure : ∀ hash, hash ∈ wanted ↔ doc.InClosure heads hash := by
    intro hash
    rw [DepGraph.mem_walkAll hwalk]
    simp only [InClosure, List.mem_reverse]
  refine ⟨wanted, hwalk, hclosure, ?_⟩
  split at h
  · cases h
    exact ⟨forall_mem_none, fun hash => by simp⟩
  · rename_i seed
    obtain ⟨hmem, h⟩ := guard_eq_ok.mp h
    cases h
    refine ⟨fun hash hhash => ?_, fun hash => ?_⟩
    · cases hhash
      exact not_not.mp hmem
    · rw [mem_erase_and, and_comm]
      simp

/-- Another graph that agrees on the closure selects the same changes from heads with the same
closure. -/
theorem selectHashes_same {other : SignedDoc} {others : List ChangeHash}
    (h : doc.selectHashes heads seed = .ok selected)
    (hgraph : ∀ hash, doc.InClosure heads hash → hash ∈ other.graph.available ∧
      other.graph.deps hash = doc.graph.deps hash)
    (hothers : ∀ head ∈ others, doc.InClosure heads head)
    (hheads : ∀ head ∈ heads, doc.InClosure others head) :
    other.selectHashes others seed = .ok selected := by
  obtain ⟨wanted, hwalk, hclosure, hseed, hselected⟩ := selectHashes_eq_ok h
  obtain ⟨hheld, -, hclosed⟩ := DepGraph.walkAll_spec hwalk
  have hagree : ∀ hash ∈ wanted, hash ∈ other.graph.available ∧
      other.graph.deps hash = doc.graph.deps hash := fun hash hhash =>
    hgraph hash ((hclosure hash).mp hhash)
  have hclosed' : ∀ hash ∈ wanted, ∀ next ∈ other.graph.deps hash, next ∈ wanted := by
    intro hash hhash next hnext
    rw [(hagree hash hhash).2] at hnext
    exact hclosed hash hhash next hnext
  have hstack : ∀ head ∈ others.reverse, head ∈ wanted := fun head hhead =>
    (hclosure head).mpr (hothers head (List.mem_reverse.mp hhead))
  obtain ⟨found, hfound⟩ := DepGraph.exists_walkAll hstack
    (fun hash hhash => (hagree hash hhash).1) hclosed' ∅
  have hsame : found = wanted := by
    apply ExtTreeSet.ext_mem
    intro hash
    rw [DepGraph.mem_walkAll hfound, hclosure]
    constructor
    · rintro ⟨head, hhead, hbehind⟩
      have hinside := hothers head (List.mem_reverse.mp hhead)
      obtain ⟨named, hnamed, hfirst⟩ := hinside
      refine ⟨named, hnamed, hfirst.trans ?_⟩
      exact hbehind.of_agree hheld (fun hash hhash => (hagree hash hhash).2.symm) hclosed'
        ((hclosure head).mpr ⟨named, hnamed, hfirst⟩)
    · rintro ⟨head, hhead, hbehind⟩
      obtain ⟨named, hnamed, hfirst⟩ := hheads head hhead
      refine ⟨named, List.mem_reverse.mpr hnamed, ?_⟩
      exact (hfirst.trans hbehind).of_agree (fun hash hhash => (hagree hash hhash).1)
        (fun hash hhash => (hagree hash hhash).2) hclosed
        ((hclosure named).mpr (hothers named hnamed))
  subst hsame
  unfold selectHashes at h ⊢
  rw [hwalk] at h
  rw [hfound]
  exact h

theorem operationOf_eq_ok {operations : ExtTreeMap ChangeHash SignedOp} {hash : ChangeHash}
    {op : SignedOp} : operationOf operations hash = .ok op ↔ operations[hash]? = some op := by
  unfold operationOf
  split
  · rename_i hnone
    simp [hnone]
  · rename_i found hfound
    rw [hfound, Except.ok.injEq, Option.some.injEq]

/-- A successful run lists one operation for each change behind the heads but the seed, each after
its dependencies. Any other log with the same operations of these changes gives the same list, in
any graph that agrees on them and from any heads with the same closure. -/
theorem signedOps_canonical {doc : SignedDoc} {heads : List ChangeHash}
    {seed : Option ChangeHash} {out : List SignedOp}
    (h : doc.signedOpsForHeads parse heads seed = .ok out) :
    ∃ hashes : List ChangeHash,
      List.Forall₂ (fun hash op => op ∈ doc.log ∧ parse op.delta = .ok hash ∧ op.domainOp ≠ none)
        hashes out ∧
      hashes.Nodup ∧
      (∀ hash, hash ∈ hashes ↔ doc.InClosure heads hash ∧ some hash ≠ seed) ∧
      (∀ before hash after, hashes = before ++ hash :: after →
        ∀ dep ∈ doc.graph.deps hash, dep ∈ hashes → dep ∈ before) ∧
      ∀ (other : SignedDoc) (others : List ChangeHash), other.checkpoint = doc.checkpoint →
        (∀ hash, doc.InClosure heads hash → hash ∈ other.graph.available ∧
          other.graph.deps hash = doc.graph.deps hash) →
        (∀ head ∈ others, doc.InClosure heads head) →
        (∀ head ∈ heads, doc.InClosure others head) →
        (∀ op ∈ other.log, ∃ change, parse op.delta = .ok change) →
        (∀ (op : SignedOp) (hash : ChangeHash), parse op.delta = .ok hash → hash ∈ hashes →
          other.log.count op = doc.log.count op) →
        other.signedOpsForHeads parse others seed = .ok out := by
  obtain ⟨hseed, selected, operations, listed, hselect, hgather, hsize, horder, hout⟩ :=
    (signedOps_eq_ok parse).mp h
  obtain ⟨wanted, -, hclosure, -, hselected⟩ := selectHashes_eq_ok hselect
  obtain ⟨hdistinct, hlisted, hafter⟩ := order_sound horder
  have hmem : ∀ hash, hash ∈ listed ↔ doc.InClosure heads hash ∧ some hash ≠ seed := by
    intro hash
    rw [hlisted, hselected, hclosure]
  refine ⟨listed, ?_, hdistinct, hmem, fun before hash after hsplit dep hdep hdepMem =>
    hafter before hash after hsplit dep hdep ((hlisted dep).mp hdepMem), ?_⟩
  · obtain ⟨-, hpairs, -, rfl⟩ := gather_eq_ok parse hgather
    refine (mapM_eq_ok_iff.mp hout).imp fun hash op hop => ?_
    have hpair : (hash, op) ∈ pairs parse selected doc.log := by
      rcases mem_of_insertAll (operationOf_eq_ok.mp hop) with hpair | hempty
      · exact hpair
      · simp at hempty
    obtain ⟨carrier, hcarrier, hcarried⟩ := List.mem_filterMap.mp hpair
    obtain ⟨rfl, hparse, -⟩ := (carried_eq_some parse).mp hcarried
    exact ⟨hcarrier, hparse, (hpairs _ hpair).1⟩
  · intro other others hcheckpoint hgraph hothers hheads hparsed hcount
    rw [signedOps_eq_ok]
    have hdeps : ∀ hash ∈ selected, other.graph.deps hash = doc.graph.deps hash := fun hash hhash =>
      (hgraph hash ((hclosure hash).mp ((hselected hash).mp hhash).1)).2
    refine ⟨hseed.trans hcheckpoint.symm, selected, operations, listed,
      selectHashes_same hselect hgraph hothers hheads, ?_, hsize, ?_, hout⟩
    · exact gather_same parse hgather hparsed fun op change hparse hchange =>
        hcount op change hparse ((hlisted change).mpr hchange)
    · rw [order_congr hdeps, Progress.start_congr hdeps]
      exact horder

/-- A signed operation whose change is one byte. -/
def sampleOp (byte : UInt8) : SignedOp := ⟨.docRegistry, 1, 0, [], [byte], some [], 0⟩

def sampleParse (bytes : Bytes) : Except String ChangeHash := .ok (BitVec.ofNat 256 (beNat bytes))

/-- Two changes of which the second depends on the first, received in the other order. -/
def sampleSigned : SignedDoc where
  graph := ⟨{1, 2}, fun hash => if hash = 2 then [1] else []⟩
  checkpoint := none
  log := [sampleOp 2, sampleOp 1]

theorem walkAll_sampleSigned :
    sampleSigned.graph.walkAll [2] ∅ = some ((∅ : ExtTreeSet ChangeHash).insert 2 |>.insert 1) := by
  have hfirst : (2 : ChangeHash) ∉ (∅ : ExtTreeSet ChangeHash) := ExtTreeSet.not_mem_empty
  have hsecond : (1 : ChangeHash) ∉ (∅ : ExtTreeSet ChangeHash).insert 2 := by decide +kernel
  have hpush : sampleSigned.graph.push 2 [] = [1] := by decide +kernel
  have hend : sampleSigned.graph.push 1 [] = [] := by decide +kernel
  rw [DepGraph.walkAll, dif_neg hfirst, dif_pos (by decide +kernel), hpush, DepGraph.walkAll,
    dif_neg hsecond, dif_pos (by decide +kernel), hend, DepGraph.walkAll]

theorem signedOps_sampleSigned :
    sampleSigned.signedOpsForHeads sampleParse [2] none = .ok [sampleOp 1, sampleOp 2] ∧
      ∃ hashes : List ChangeHash, hashes.Nodup ∧
        ∀ hash, hash ∈ hashes ↔ sampleSigned.InClosure [2] hash ∧ some hash ≠ none := by
  have hrun :
      sampleSigned.signedOpsForHeads sampleParse [2] none = .ok [sampleOp 1, sampleOp 2] := by
    unfold signedOpsForHeads selectHashes
    rw [List.reverse_singleton, walkAll_sampleSigned]
    decide +kernel
  obtain ⟨hashes, -, hdistinct, hmem, -⟩ := signedOps_canonical sampleParse hrun
  exact ⟨hrun, hashes, hdistinct, hmem⟩

end SignedDoc
end Mewtual
