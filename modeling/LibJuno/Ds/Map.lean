import LibJuno.Ds.FlatArray
import LibJuno.Lib.Machine
import LibJuno.Lib.Probing

/-!
# The open-addressed map

`map_api.h` and `juno_map.c`: linear probing over an injected array, with the hash, the
key comparison and the test for an empty slot injected too. A removed item's slot is
reset and nothing marks it, so a probe that used to pass it now stops there.
`map_refines_iff` says which removals are harmless.
-/

namespace LibJuno.Ds

open Memory

/-- `JUNO_MAP_HASHABLE_POINTER_API_T`. -/
structure HashablePointerApi (ω : Type) where
  hash : Ref (Pointer → ω → Result Nat × ω)
  isValueNull : Ref (Pointer → ω → Result Bool × ω)

/-- `JUNO_VALUE_POINTER_API_T`, as far as the map uses it. -/
structure ValuePointerApi (ω : Type) where
  equals : Ref (Pointer → Pointer → ω → Result Bool × ω)

/-- `JUNO_MAP_ROOT_T`; of its own vtable only whether it is set is ever tested. -/
structure MapRoot (ω : Type) where
  ptApi : Bool
  ptHashablePointerApi : Ref (HashablePointerApi ω)
  ptValuePointerApi : Ref (ValuePointerApi ω)
  ptHashMap : Ref (ArrayRoot ω)
  failureHandler : FailureHandler ω

section Operations

variable {ω : Type}

/-- `JunoDs_MapVerify`. -/
def mapVerify (ptMap : MapRoot ω) : Status :=
  if !(ptMap.ptApi && ptMap.ptHashablePointerApi.nonNull && ptMap.ptValuePointerApi.nonNull &&
      ptMap.ptHashMap.nonNull && ptMap.ptHashablePointerApi.deref.hash.nonNull &&
      ptMap.ptHashablePointerApi.deref.isValueNull.nonNull &&
      ptMap.ptValuePointerApi.deref.equals.nonNull) then .nullptrError
  else arrayVerify ptMap.ptHashMap

/-- `JunoDs_MapInit`. -/
def mapInit (ptHashablePointerApi : Ref (HashablePointerApi ω))
    (ptValuePointerApi : Ref (ValuePointerApi ω)) (ptArray : Ref (ArrayRoot ω))
    (pfcnFailureHandler : FailureHandler ω) : Status × MapRoot ω :=
  let ptMapRoot : MapRoot ω :=
    ⟨true, ptHashablePointerApi, ptValuePointerApi, ptArray, pfcnFailureHandler⟩
  (mapVerify ptMapRoot, ptMapRoot)

/-- The probe loop that `JunoDs_MapGetWithKey` and `JunoDs_MapRemove` share, over the
steps `i`, .., `i + n - 1`. They differ in what they do at an empty slot and at the slot of
the key, given its descriptor and index. -/
def mapProbe (ptJunoMap : MapRoot ω) (tItem : Pointer) (iHash : Nat)
    (onEmpty onEqual : Pointer → Nat → ω → Result Pointer × ω) : Nat → Nat → ω → Result Pointer × ω
  | 0, _, w => (⟨.tableFullError, default⟩, w)
  | n + 1, i, w =>
    let ptHashMap := ptJunoMap.ptHashMap.deref
    let zIndex := sizeT (iHash + i) % ptHashMap.zCapacity
    let tPtrResult := ptHashMap.ptApi.deref.getAt.deref zIndex w
    if tPtrResult.1.tStatus ≠ .success then (⟨tPtrResult.1.tStatus, default⟩, tPtrResult.2)
    else if tPtrResult.1.tOk.ptApi ≠ tItem.ptApi then
      (⟨.invalidTypeError, default⟩,
        fail ptJunoMap.failureHandler .invalidTypeError "Invalid pointer type" tPtrResult.2)
    else
      let bIsEmpty := ptJunoMap.ptHashablePointerApi.deref.isValueNull.deref tPtrResult.1.tOk tPtrResult.2
      if bIsEmpty.1.tStatus ≠ .success then (⟨bIsEmpty.1.tStatus, default⟩, bIsEmpty.2)
      else if bIsEmpty.1.tOk then onEmpty tPtrResult.1.tOk zIndex bIsEmpty.2
      else
        let bIsEqual := ptJunoMap.ptValuePointerApi.deref.equals.deref tItem tPtrResult.1.tOk bIsEmpty.2
        if bIsEqual.1.tStatus ≠ .success then (⟨bIsEqual.1.tStatus, default⟩, bIsEqual.2)
        else if bIsEqual.1.tOk then onEqual tPtrResult.1.tOk zIndex bIsEqual.2
        else mapProbe ptJunoMap tItem iHash onEmpty onEqual n (i + 1) bIsEqual.2

/-- `JunoDs_MapGetWithKey`: the slot of the key, or the first empty slot of its path. The
status of its `JunoMemory_PointerVerify` is overwritten unread. -/
def mapGetWithKey (ptJunoMap : MapRoot ω) (tItem : Pointer) (w : ω) : Result Pointer × ω :=
  let tStatus := mapVerify ptJunoMap
  if tStatus ≠ .success then (⟨tStatus, default⟩, w)
  else
    let tHashResult := ptJunoMap.ptHashablePointerApi.deref.hash.deref tItem w
    if tHashResult.1.tStatus ≠ .success then (⟨tHashResult.1.tStatus, default⟩, tHashResult.2)
    else
      mapProbe ptJunoMap tItem tHashResult.1.tOk (fun tOk _ w => (⟨.success, tOk⟩, w))
        (fun tOk _ w => (⟨.success, tOk⟩, w)) ptJunoMap.ptHashMap.deref.zCapacity 0 tHashResult.2

variable (apis : PointerApis ω)

/-- `JunoDs_MapGet`. -/
def mapGet (ptJunoMap : MapRoot ω) (tItem : Pointer) (w : ω) : Result Pointer × ω :=
  let tStatus := mapVerify ptJunoMap
  if tStatus ≠ .success then (⟨tStatus, default⟩, w)
  else
    let tStatus := pointerVerify apis tItem
    if tStatus ≠ .success then (⟨tStatus, default⟩, w)
    else
      let tResult := mapGetWithKey ptJunoMap tItem w
      if tResult.1.tStatus ≠ .success then tResult
      else
        let bIsEmpty := ptJunoMap.ptHashablePointerApi.deref.isValueNull.deref tResult.1.tOk tResult.2
        if bIsEmpty.1.tStatus ≠ .success then (⟨bIsEmpty.1.tStatus, tResult.1.tOk⟩, bIsEmpty.2)
        else if bIsEmpty.1.tOk then (⟨.dneError, tResult.1.tOk⟩, bIsEmpty.2)
        else (⟨.success, tResult.1.tOk⟩, bIsEmpty.2)

/-- `JunoDs_MapSet`. -/
def mapSet (ptJunoMap : MapRoot ω) (tItem : Pointer) (w : ω) : Status × ω :=
  let tStatus := mapVerify ptJunoMap
  if tStatus ≠ .success then (tStatus, w)
  else
    let tStatus := pointerVerify apis tItem
    if tStatus ≠ .success then (tStatus, w)
    else
      let tItemResult := mapGetWithKey ptJunoMap tItem w
      if tItemResult.1.tStatus ≠ .success then (tItemResult.1.tStatus, tItemResult.2)
      else if tItem.ptApi ≠ tItemResult.1.tOk.ptApi then
        (.invalidTypeError,
          fail ptJunoMap.failureHandler .invalidTypeError "Invalid map type" tItemResult.2)
      else (apis tItem.ptApi).copy.deref tItemResult.1.tOk tItem tItemResult.2

/-- `JunoDs_MapRemove`. The status of its `JunoMemory_PointerVerify` is overwritten
unread. -/
def mapRemove (ptJunoMap : MapRoot ω) (tItem : Pointer) (w : ω) : Status × ω :=
  let tStatus := mapVerify ptJunoMap
  if tStatus ≠ .success then (tStatus, w)
  else
    let tHashResult := ptJunoMap.ptHashablePointerApi.deref.hash.deref tItem w
    if tHashResult.1.tStatus ≠ .success then (tHashResult.1.tStatus, tHashResult.2)
    else
      let removeAt := ptJunoMap.ptHashMap.deref.ptApi.deref.removeAt.deref
      let tResult := mapProbe ptJunoMap tItem tHashResult.1.tOk (fun _ _ w => (⟨.success, default⟩, w))
        (fun _ zIndex w => (⟨(removeAt zIndex w).1, default⟩, (removeAt zIndex w).2))
        ptJunoMap.ptHashMap.deref.zCapacity 0 tHashResult.2
      (tResult.1.tStatus, tResult.2)

end Operations

/-! ## The callbacks -/

/-- An array of items with a key each, and lawful callbacks, which may fail. They leave the
items alone, and what they answer on success is a hash of the key, whether the slot tests
empty, and whether the keys are equal. -/
structure KeyTable {ω α : Type} (M : ItemMemory ω α) (κ : Type) [DecidableEq κ] where
  array : ItemArray M
  hashable : HashablePointerApi ω
  value : ValuePointerApi ω
  null : α → Bool
  key : α → κ
  hashOf : κ → Nat
  pos : 0 < array.zCapacity
  present : (hashable.hash.nonNull && hashable.isValueNull.nonNull && value.equals.nonNull) = true
  hash_key : ∀ (c : Cell M) w, let r := hashable.hash.deref c.toPointer w
    (r.1.tStatus = .success → r.1.tOk = hashOf (key (M.item w c.pvAddr))) ∧ M.item r.2 = M.item w
  isValueNull_null : ∀ (c : Cell M) w, let r := hashable.isValueNull.deref c.toPointer w
    (r.1.tStatus = .success → r.1.tOk = null (M.item w c.pvAddr)) ∧ M.item r.2 = M.item w
  equals_key : ∀ (c d : Cell M) w, null (M.item w d.pvAddr) = false →
    let r := value.equals.deref c.toPointer d.toPointer w
    (r.1.tStatus = .success →
      r.1.tOk = decide (key (M.item w c.pvAddr) = key (M.item w d.pvAddr))) ∧ M.item r.2 = M.item w

namespace KeyTable

variable {ω α κ : Type} {M : ItemMemory ω α} [DecidableEq κ] (T : KeyTable M κ)

/-- The callbacks of a lookup succeed. -/
structure Answers : Prop where
  hash : ∀ (c : Cell M) w, (T.hashable.hash.deref c.toPointer w).1.tStatus = .success
  isValueNull : ∀ (c : Cell M) w, (T.hashable.isValueNull.deref c.toPointer w).1.tStatus = .success
  equals : ∀ (c d : Cell M) w, T.null (M.item w d.pvAddr) = false →
    (T.value.equals.deref c.toPointer d.toPointer w).1.tStatus = .success
  getAt : ∀ i w, i < T.array.zCapacity →
    (T.array.root.ptApi.deref.getAt.deref i w).1.tStatus = .success

/-- The map over the table, as `mapInit` leaves it. -/
def map (handler : Handler M) : MapRoot ω :=
  (mapInit (Ref.to T.hashable) (Ref.to T.value) (Ref.to T.array.root) handler.ref).2

/-- The table as the probe loop sees it. The sum of hash and step is a `size_t`. -/
def layout : Probing.Layout (Fin T.array.zCapacity) α κ where
  null := T.null
  key := T.key
  path k i := ⟨sizeT (T.hashOf k + i) % T.array.zCapacity, Nat.mod_lt _ T.pos⟩
  steps := T.array.zCapacity

/-- The items in the slots. -/
def contents (w : ω) (i : Fin T.array.zCapacity) : α := T.array.at_ w i

theorem verify (handler : Handler M) : mapVerify (T.map handler) = .success := by
  have present := T.present
  simp only [Bool.and_eq_true] at present
  obtain ⟨⟨hash, isValueNull⟩, equals⟩ := present
  have array := T.array.verify T.pos
  simp [mapVerify, map, mapInit, Ref.to, hash, isValueNull, equals] at array ⊢
  exact array

theorem contents_congr {w w' : ω} (same : M.item w' = M.item w) : T.contents w' = T.contents w := by
  funext i
  simp only [contents, ItemArray.at_, same]

theorem contents_client {w w' : ω} {x : α} (c : T.array.Client)
    (written : M.item w' = Function.update (M.item w) c.pvAddr x) : T.contents w' = T.contents w := by
  funext i
  exact T.array.at_client c i.2 written

theorem contents_slot {w w' : ω} {x : α} (s : Fin T.array.zCapacity)
    (written : M.item w' = Function.update (M.item w) (T.array.slot s).pvAddr x) :
    T.contents w' = Function.update (T.contents w) s x := by
  funext i
  have here := T.array.at_update s.2 i.2 written
  simp only [contents, here]
  by_cases same : i = s
  · subst same
    simp
  · rw [Function.update_of_ne same, Function.update_of_ne (fun e => same (Fin.ext e))]
    rfl

/-! ## The probe loop -/

/-- How a probe ends whose search of the path stops at `search`: a callback fails, or the
search fails, or the slot where it stops is handed on. -/
inductive ProbeOutcome (w : ω) (k : κ) (onEmpty onEqual : Pointer → Nat → ω → Result Pointer × ω)
    (search : Option Nat) : Result Pointer × ω → Prop where
  | failed {r : Result Pointer × ω} (unanswered : ¬T.Answers) (failed : r.1.tStatus ≠ .success)
      (same : M.item r.2 = M.item w) : ProbeOutcome w k onEmpty onEqual search r
  | full {r : Result Pointer × ω} (none_ : search = none) (full : r.1.tStatus = .tableFullError)
      (same : M.item r.2 = M.item w) : ProbeOutcome w k onEmpty onEqual search r
  | stopped {d : Nat} {w' : ω} (found : search = some d) (same : M.item w' = M.item w) :
      ProbeOutcome w k onEmpty onEqual search
        ((if T.null (T.contents w (T.layout.path k d)) then onEmpty else onEqual)
          (T.array.slot (T.layout.path k d)).toPointer (T.layout.path k d) w')

section Probe

variable (handler : Handler M) (c : Cell M) {k : κ} (onEmpty onEqual : Pointer → Nat → ω → Result Pointer × ω)

/-- An outcome for the same items. -/
theorem ProbeOutcome.of_same {T : KeyTable M κ} {onEmpty onEqual : Pointer → Nat → ω → Result Pointer × ω}
    {w w₀ : ω} {search : Option Nat} {r : Result Pointer × ω}
    (same : M.item w₀ = M.item w) (h : T.ProbeOutcome w₀ k onEmpty onEqual search r) :
    T.ProbeOutcome w k onEmpty onEqual search r := by
  cases h with
  | failed unanswered failed keeps => exact .failed unanswered failed (keeps.trans same)
  | full none_ full keeps => exact .full none_ full (keeps.trans same)
  | stopped found keeps =>
    rw [T.contents_congr same]
    exact .stopped found (keeps.trans same)

/-- One round of the probe loop. -/
theorem mapProbe_succ (n i : Nat) {w : ω} (own : T.key (M.item w c.pvAddr) = k) :
    let s := T.layout.path k i
    let loop := mapProbe (T.map handler) c.toPointer (T.hashOf k) onEmpty onEqual
    (¬T.Answers ∧ (loop (n + 1) i w).1.tStatus ≠ .success ∧ M.item (loop (n + 1) i w).2 = M.item w) ∨
    ∃ w', M.item w' = M.item w ∧ loop (n + 1) i w =
      if T.null (T.contents w s) then onEmpty (T.array.slot s).toPointer s w'
      else if T.key (T.contents w s) = k then onEqual (T.array.slot s).toPointer s w'
      else loop n (i + 1) w' := by
  intro s loop
  have index : sizeT (T.hashOf k + i) % T.array.root.zCapacity = s := rfl
  have array : (T.map handler).ptHashMap.deref = T.array.root := rfl
  have hashable : (T.map handler).ptHashablePointerApi.deref = T.hashable := rfl
  have value : (T.map handler).ptValuePointerApi.deref = T.value := rfl
  have first : loop (n + 1) i w = mapProbe (T.map handler) c.toPointer (T.hashOf k) onEmpty onEqual
    (n + 1) i w := rfl
  simp only [mapProbe, array, hashable, value, index] at first
  obtain ⟨keepsGet, slot⟩ := T.array.getAt_slot s w s.2
  have unget : (T.array.root.ptApi.deref.getAt.deref s w).1.tStatus ≠ .success → ¬T.Answers :=
    fun failed answers => failed (answers.getAt s w s.2)
  generalize T.array.root.ptApi.deref.getAt.deref s w = get at keepsGet slot unget first
  by_cases okGet : get.1.tStatus = .success
  swap
  · rw [if_pos okGet] at first
    rw [first]
    exact .inl ⟨unget okGet, okGet, keepsGet⟩
  have typed : (T.array.slot s).toPointer.ptApi = c.toPointer.ptApi := by
    rw [(T.array.slot s).typed, c.typed]
  simp only [slot okGet, okGet, typed, ne_eq, not_true_eq_false, if_false] at first
  obtain ⟨isNull, keepsNull⟩ := T.isValueNull_null (T.array.slot s) get.2
  have untest : (T.hashable.isValueNull.deref (T.array.slot s).toPointer get.2).1.tStatus ≠ .success →
      ¬T.Answers := fun failed answers => failed (answers.isValueNull (T.array.slot s) get.2)
  generalize T.hashable.isValueNull.deref (T.array.slot s).toPointer get.2 = empty
    at isNull keepsNull untest first
  rw [keepsGet] at isNull keepsNull
  by_cases okNull : empty.1.tStatus = .success
  swap
  · rw [if_pos okNull] at first
    rw [first]
    exact .inl ⟨untest okNull, okNull, keepsNull⟩
  have contents : M.item w (T.array.slot s).pvAddr = T.contents w s := rfl
  rw [contents] at isNull
  simp only [okNull, isNull okNull, not_true_eq_false, if_false] at first
  cases free : T.null (T.contents w s) with
  | true =>
    refine .inr ⟨empty.2, keepsNull, ?_⟩
    rw [first, free, if_pos rfl, if_pos rfl]
  | false =>
    have item : T.null (M.item empty.2 (T.array.slot s).pvAddr) = false := by
      rw [keepsNull]
      exact free
    obtain ⟨isEqual, keepsEqual⟩ := T.equals_key c (T.array.slot s) empty.2 item
    have uncompared : (T.value.equals.deref c.toPointer (T.array.slot s).toPointer empty.2).1.tStatus ≠
        .success → ¬T.Answers := fun failed answers => failed (answers.equals c (T.array.slot s) empty.2 item)
    generalize T.value.equals.deref c.toPointer (T.array.slot s).toPointer empty.2 = equal
      at isEqual keepsEqual uncompared first
    rw [keepsNull] at isEqual keepsEqual
    rw [free, if_neg Bool.false_ne_true] at first
    by_cases okEqual : equal.1.tStatus = .success
    swap
    · rw [if_pos okEqual] at first
      rw [first]
      exact .inl ⟨uncompared okEqual, okEqual, keepsEqual⟩
    refine .inr ⟨equal.2, keepsEqual, ?_⟩
    rw [if_neg (not_not.2 okEqual), isEqual okEqual, own] at first
    simp only [first, contents, decide_eq_true_eq, Bool.false_eq_true, if_false, eq_comm (a := k), loop]

/-- The probe loop ends where the search does. -/
theorem mapProbe_range (n : Nat) :
    ∀ (i : Nat) {w : ω}, T.key (M.item w c.pvAddr) = k →
    T.ProbeOutcome w k onEmpty onEqual
      ((List.range' i n).find? (Probing.stopsAt T.layout (T.contents w) k))
      (mapProbe (T.map handler) c.toPointer (T.hashOf k) onEmpty onEqual n i w) := by
  induction n with
  | zero =>
    intro i w own
    exact ProbeOutcome.full (T := T) rfl rfl rfl
  | succ n ih =>
    intro i w own
    have cons : (List.range' i (n + 1)).find? (Probing.stopsAt T.layout (T.contents w) k) =
        if Probing.stopsAt T.layout (T.contents w) k i then some i
        else (List.range' (i + 1) n).find? (Probing.stopsAt T.layout (T.contents w) k) := by
      simp only [List.range'_succ, List.find?_cons]
      cases Probing.stopsAt T.layout (T.contents w) k i <;> rfl
    have stops : Probing.stopsAt T.layout (T.contents w) k i =
      (T.null (T.contents w (T.layout.path k i)) || T.key (T.contents w (T.layout.path k i)) = k) := rfl
    rcases T.mapProbe_succ handler c onEmpty onEqual n i own with ⟨unanswered, failed, same⟩ | ⟨w', same, round⟩
    · exact .failed unanswered failed same
    have stopped : T.ProbeOutcome w k onEmpty onEqual (some i) _ := .stopped rfl same
    rw [cons, stops, round]
    cases free : T.null (T.contents w (T.layout.path k i)) with
    | true =>
      rw [if_pos free] at stopped
      simpa [free] using stopped
    | false =>
      rw [if_neg (Bool.eq_false_iff.1 free)] at stopped
      by_cases here : T.key (T.contents w (T.layout.path k i)) = k
      · simpa [here] using stopped
      · have rest := (ih (i + 1) (by rw [same, own])).of_same same
        rw [T.contents_congr same] at rest
        simpa [here] using rest

/-- The whole probe loop ends where the search for the key stops. -/
theorem mapProbe_find {w : ω} (own : T.key (M.item w c.pvAddr) = k) :
    T.ProbeOutcome w k onEmpty onEqual (Probing.find T.layout (T.contents w) k)
      (mapProbe (T.map handler) c.toPointer (T.hashOf k) onEmpty onEqual T.array.zCapacity 0 w) := by
  have search : Probing.find T.layout (T.contents w) k =
      (List.range' 0 T.array.zCapacity).find? (Probing.stopsAt T.layout (T.contents w) k) := by
    rw [← List.range_eq_range']
    rfl
  rw [search]
  exact T.mapProbe_range handler c onEmpty onEqual T.array.zCapacity 0 own

end Probe

/-! ## What one call does -/

section Calls

variable (handler : Handler M) (c : Cell M) {k : κ} {w : ω} (own : T.key (M.item w c.pvAddr) = k)

include own

/-- `mapGetWithKey` finds the slot at which the search for the key stops, unless a callback
fails. -/
theorem mapGetWithKey_spec : let r := mapGetWithKey (T.map handler) c.toPointer w
    M.item r.2 = M.item w ∧
    (¬T.Answers ∧ r.1.tStatus ≠ .success ∨
      Probing.find T.layout (T.contents w) k = none ∧ r.1.tStatus = .tableFullError ∨
      ∃ d, Probing.find T.layout (T.contents w) k = some d ∧
        r.1 = ⟨.success, (T.array.slot (T.layout.path k d)).toPointer⟩) := by
  intro r
  obtain ⟨hashed, keeps⟩ := T.hash_key c w
  have hashable : (T.map handler).ptHashablePointerApi.deref = T.hashable := rfl
  have array : (T.map handler).ptHashMap.deref.zCapacity = T.array.zCapacity := rfl
  have call : r = mapGetWithKey (T.map handler) c.toPointer w := rfl
  simp only [mapGetWithKey, T.verify handler, hashable, array, ne_eq, not_true_eq_false, if_false] at call
  have unhashed : (T.hashable.hash.deref c.toPointer w).1.tStatus ≠ .success → ¬T.Answers :=
    fun failed answers => failed (answers.hash c w)
  generalize T.hashable.hash.deref c.toPointer w = hash at hashed keeps unhashed call
  by_cases ok : hash.1.tStatus = .success
  swap
  · rw [if_pos ok] at call
    rw [call]
    exact ⟨keeps, .inl ⟨unhashed ok, ok⟩⟩
  rw [if_neg (not_not.2 ok), hashed ok, own] at call
  have outcome := T.mapProbe_find handler c (fun tOk _ w => (⟨.success, tOk⟩, w))
    (fun tOk _ w => (⟨.success, tOk⟩, w)) ((congrArg _ (congrFun keeps c.pvAddr)).trans own)
  rw [T.contents_congr keeps] at outcome
  rw [call]
  generalize mapProbe _ _ _ _ _ _ _ _ = result at outcome
  cases outcome with
  | failed unanswered failed same => exact ⟨same.trans keeps, .inl ⟨unanswered, failed⟩⟩
  | full none_ full same => exact ⟨same.trans keeps, .inr (.inl ⟨none_, full⟩)⟩
  | stopped found same =>
    rw [ite_self]
    exact ⟨same.trans keeps, .inr (.inr ⟨_, found, rfl⟩)⟩

/-- `mapSet` writes the item where the search for its key stops, or nothing; if no callback
fails, the table is full then. -/
theorem mapSet_spec : let r := mapSet M.apis (T.map handler) c.toPointer w
    (r.1 ≠ .success ∧ M.item r.2 = M.item w ∧
      (T.Answers → (∀ (d : Cell M) w, ((M.apis M.ptApi).copy.deref d.toPointer c.toPointer w).1 = .success) →
        Probing.find T.layout (T.contents w) k = none ∧ r.1 = .tableFullError)) ∨
    ∃ d, Probing.find T.layout (T.contents w) k = some d ∧ r.1 = .success ∧
      M.item r.2 = Function.update (M.item w) (T.array.slot (T.layout.path k d)).pvAddr
        (M.item w c.pvAddr) := by
  intro r
  obtain ⟨keeps, found⟩ := T.mapGetWithKey_spec handler c own
  have call : r = mapSet M.apis (T.map handler) c.toPointer w := rfl
  simp only [mapSet, T.verify handler, c.verify, ne_eq, not_true_eq_false, if_false] at call
  generalize mapGetWithKey (T.map handler) c.toPointer w = slot at keeps found call
  have missed : slot.1.tStatus ≠ .success → r = (slot.1.tStatus, slot.2) :=
    fun failed => call.trans (if_pos failed)
  rcases found with ⟨unanswered, failed⟩ | ⟨none_, full⟩ | ⟨d, found, here⟩
  · rw [missed failed]
    exact .inl ⟨failed, keeps, fun answers => absurd answers unanswered⟩
  · rw [missed (by simp [full])]
    exact .inl ⟨by simp [full], keeps, fun _ _ => ⟨none_, full⟩⟩
  · simp only [here, Cell.typed, not_true_eq_false, if_false] at call
    have copied := M.item_copy (T.array.slot (T.layout.path k d)).toPointer c.toPointer slot.2
      (T.array.slot _).typed c.typed
    rw [call]
    by_cases ok : ((M.apis M.ptApi).copy.deref (T.array.slot (T.layout.path k d)).toPointer c.toPointer
        slot.2).1 = .success
    · simp only [ok, if_true, keeps] at copied
      exact .inr ⟨d, found, ok, copied⟩
    · simp only [ok, if_false, keeps] at copied
      exact .inl ⟨ok, copied, fun _ copies => absurd (copies _ _) ok⟩

/-- `mapGet` changes nothing; if no callback fails, it names the slot where the search for
the key stops, or reports that the slot is empty or that there is none. -/
theorem mapGet_spec : let r := mapGet M.apis (T.map handler) c.toPointer w
    M.item r.2 = M.item w ∧
    (T.Answers → Probing.find T.layout (T.contents w) k = none ∧ r.1.tStatus = .tableFullError ∨
      ∃ d, Probing.find T.layout (T.contents w) k = some d ∧
        r.1 = ⟨if T.null (T.contents w (T.layout.path k d)) then .dneError else .success,
          (T.array.slot (T.layout.path k d)).toPointer⟩) := by
  intro r
  obtain ⟨keeps, found⟩ := T.mapGetWithKey_spec handler c own
  have hashable : (T.map handler).ptHashablePointerApi.deref = T.hashable := rfl
  have call : r = mapGet M.apis (T.map handler) c.toPointer w := rfl
  simp only [mapGet, T.verify handler, c.verify, hashable, ne_eq, not_true_eq_false, if_false] at call
  generalize mapGetWithKey (T.map handler) c.toPointer w = slot at keeps found call
  have missed : slot.1.tStatus ≠ .success → r = slot := fun failed => call.trans (if_pos failed)
  rcases found with ⟨unanswered, failed⟩ | ⟨none_, full⟩ | ⟨d, found, here⟩
  · rw [missed failed]
    exact ⟨keeps, fun answers => absurd answers unanswered⟩
  · rw [missed (by simp [full])]
    exact ⟨keeps, fun _ => .inl ⟨none_, full⟩⟩
  · simp only [here, not_true_eq_false, if_false] at call
    obtain ⟨isNull, keepsNull⟩ := T.isValueNull_null (T.array.slot (T.layout.path k d)) slot.2
    have tests : T.Answers → _ := fun answers =>
      answers.isValueNull (T.array.slot (T.layout.path k d)) slot.2
    generalize T.hashable.isValueNull.deref (T.array.slot (T.layout.path k d)).toPointer slot.2 = empty
      at isNull keepsNull tests call
    rw [keeps] at isNull keepsNull
    by_cases ok : empty.1.tStatus = .success
    · have contents : M.item w (T.array.slot (T.layout.path k d)).pvAddr =
        T.contents w (T.layout.path k d) := rfl
      rw [if_neg (not_not.2 ok), isNull ok, contents] at call
      rw [call]
      cases free : T.null (T.contents w (T.layout.path k d)) with
      | true => exact ⟨keepsNull, fun _ => .inr ⟨d, found, by rw [free]; rfl⟩⟩
      | false => exact ⟨keepsNull, fun _ => .inr ⟨d, found, by rw [free]; rfl⟩⟩
    · rw [if_pos ok] at call
      rw [call]
      exact ⟨keepsNull, fun answers => absurd (tests answers) ok⟩

end Calls

end KeyTable

/-- An array of items with a key each, and lawful callbacks that succeed: `Equals` is key
equality, equal keys have equal hashes, and a slot tests empty once it is reset. -/
structure MapTable {ω α : Type} (M : ItemMemory ω α) (κ : Type) [DecidableEq κ] where
  array : ItemArray M
  hashable : HashablePointerApi ω
  value : ValuePointerApi ω
  null : α → Bool
  key : α → κ
  hashOf : κ → Nat
  pos : 0 < array.zCapacity
  present : (hashable.hash.nonNull && hashable.isValueNull.nonNull && value.equals.nonNull) = true
  hash_key : ∀ (c : Cell M) w, let r := hashable.hash.deref c.toPointer w
    r.1 = ⟨.success, hashOf (key (M.item w c.pvAddr))⟩ ∧ M.item r.2 = M.item w
  isValueNull_null : ∀ (c : Cell M) w, let r := hashable.isValueNull.deref c.toPointer w
    r.1 = ⟨.success, null (M.item w c.pvAddr)⟩ ∧ M.item r.2 = M.item w
  equals_key : ∀ (c d : Cell M) w, null (M.item w d.pvAddr) = false →
    let r := value.equals.deref c.toPointer d.toPointer w
    r.1 = ⟨.success, decide (key (M.item w c.pvAddr) = key (M.item w d.pvAddr))⟩ ∧ M.item r.2 = M.item w
  getAt_ok : ∀ i w, i < array.zCapacity → (array.root.ptApi.deref.getAt.deref i w).1.tStatus = .success
  removeAt_null : ∀ i w, i < array.zCapacity → let r := array.root.ptApi.deref.removeAt.deref i w
    r.1 = .success ∧
      ∃ y, null y = true ∧ M.item r.2 = Function.update (M.item w) (array.slot i).pvAddr y
  copy_ok : ∀ (c d : Cell M) w, ((M.apis M.ptApi).copy.deref c.toPointer d.toPointer w).1 = .success

namespace MapTable

variable {ω α κ : Type} {M : ItemMemory ω α} [DecidableEq κ] (T : MapTable M κ)

/-- The map over the table, as `mapInit` leaves it. -/
def map (handler : Handler M) : MapRoot ω :=
  (mapInit (Ref.to T.hashable) (Ref.to T.value) (Ref.to T.array.root) handler.ref).2

/-- The table as the probe loop sees it. The sum of hash and step is a `size_t`. -/
def layout : Probing.Layout (Fin T.array.zCapacity) α κ where
  null := T.null
  key := T.key
  path k i := ⟨sizeT (T.hashOf k + i) % T.array.zCapacity, Nat.mod_lt _ T.pos⟩
  steps := T.array.zCapacity

/-- The items in the slots. -/
def contents (w : ω) (i : Fin T.array.zCapacity) : α := T.array.at_ w i

/-- The table, with callbacks that do not fail. -/
def keys : KeyTable M κ where
  array := T.array
  hashable := T.hashable
  value := T.value
  null := T.null
  key := T.key
  hashOf := T.hashOf
  pos := T.pos
  present := T.present
  hash_key c w := ⟨fun _ => by rw [(T.hash_key c w).1], (T.hash_key c w).2⟩
  isValueNull_null c w := ⟨fun _ => by rw [(T.isValueNull_null c w).1], (T.isValueNull_null c w).2⟩
  equals_key c d w item := ⟨fun _ => by rw [(T.equals_key c d w item).1], (T.equals_key c d w item).2⟩

theorem answers : T.keys.Answers where
  hash c w := by simp [keys, (T.hash_key c w).1]
  isValueNull c w := by simp [keys, (T.isValueNull_null c w).1]
  equals c d w item := by simp [keys, (T.equals_key c d w item).1]
  getAt := T.getAt_ok

theorem verify (handler : Handler M) : mapVerify (T.map handler) = .success := T.keys.verify handler

theorem contents_congr {w w' : ω} (same : M.item w' = M.item w) : T.contents w' = T.contents w :=
  T.keys.contents_congr same

theorem contents_client {w w' : ω} {x : α} (c : T.array.Client)
    (written : M.item w' = Function.update (M.item w) c.pvAddr x) : T.contents w' = T.contents w :=
  T.keys.contents_client c written

theorem contents_slot {w w' : ω} {x : α} (s : Fin T.array.zCapacity)
    (written : M.item w' = Function.update (M.item w) (T.array.slot s).pvAddr x) :
    T.contents w' = Function.update (T.contents w) s x :=
  T.keys.contents_slot s written

section Calls

variable {T} (handler : Handler M) (c : T.array.Client) (w : ω)

/-- `mapGet` names the item stored under the key, or reports that there is none. -/
theorem mapGet_spec : let k := T.key (M.item w c.pvAddr)
    let r := mapGet M.apis (T.map handler) c.toPointer w
    M.item r.2 = M.item w ∧
    match Probing.lookup T.layout (T.contents w) k with
    | none => r.1.tStatus = .dneError ∨ r.1.tStatus = .tableFullError
    | some y => r.1.tStatus = .success ∧ M.item r.2 r.1.tOk.pvAddr = y := by
  intro k r
  obtain ⟨keeps, found⟩ := T.keys.mapGet_spec handler c.toCell (w := w) rfl
  have keeps : M.item r.2 = M.item w := keeps
  have found : Probing.find T.layout (T.contents w) k = none ∧ r.1.tStatus = .tableFullError ∨
      ∃ d, Probing.find T.layout (T.contents w) k = some d ∧
        r.1 = ⟨if T.null (T.contents w (T.layout.path k d)) then .dneError else .success,
          (T.array.slot (T.layout.path k d)).toPointer⟩ := found T.answers
  refine ⟨keeps, ?_⟩
  rcases found with ⟨none_, full⟩ | ⟨d, found, here⟩
  · rw [Probing.lookup_full none_]
    exact .inr full
  · cases free : T.null (T.contents w (T.layout.path k d)) with
    | true =>
      rw [Probing.lookup_free found free, here, free]
      exact .inl rfl
    | false =>
      rw [Probing.lookup_item found free, here, free]
      refine ⟨rfl, ?_⟩
      rw [keeps]
      rfl

/-- `mapSet` writes the item where the search for its key stops, or the table is full. -/
theorem mapSet_spec : let k := T.key (M.item w c.pvAddr)
    let r := mapSet M.apis (T.map handler) c.toPointer w
    (Probing.find T.layout (T.contents w) k = none ∧ r.1 = .tableFullError ∧ M.item r.2 = M.item w) ∨
    ∃ d, Probing.find T.layout (T.contents w) k = some d ∧ r.1 = .success ∧
      M.item r.2 = Function.update (M.item w) (T.array.slot (T.layout.path k d)).pvAddr
        (M.item w c.pvAddr) := by
  intro k r
  rcases T.keys.mapSet_spec handler c.toCell (w := w) rfl with ⟨-, same, full⟩ | stored
  · obtain ⟨none_, full⟩ := full T.answers fun d w => T.copy_ok d c.toCell w
    exact .inl ⟨none_, full, same⟩
  · exact .inr stored

/-- The probe loop ends where the search for the key stops. -/
theorem mapProbe_find (onEmpty onEqual : Pointer → Nat → ω → Result Pointer × ω) :
    let k := T.key (M.item w c.pvAddr)
    let r := mapProbe (T.map handler) c.toPointer (T.hashOf k) onEmpty onEqual T.array.zCapacity 0 w
    (Probing.find T.layout (T.contents w) k = none ∧ r.1.tStatus = .tableFullError ∧
      M.item r.2 = M.item w) ∨
    ∃ d w', Probing.find T.layout (T.contents w) k = some d ∧ M.item w' = M.item w ∧
      r = (if T.null (T.contents w (T.layout.path k d)) then onEmpty else onEqual)
        (T.array.slot (T.layout.path k d)).toPointer (T.layout.path k d) w' := by
  intro k r
  have outcome : T.keys.ProbeOutcome w k onEmpty onEqual (Probing.find T.layout (T.contents w) k) r :=
    T.keys.mapProbe_find handler c.toCell onEmpty onEqual rfl
  clear_value r
  cases outcome with
  | failed unanswered => exact absurd T.answers unanswered
  | full none_ full same => exact .inl ⟨none_, full, same⟩
  | stopped found same => exact .inr ⟨_, _, found, same, rfl⟩

/-- `mapRemove` resets the slot of the key if the search for the key stops there. -/
theorem mapRemove_spec : let k := T.key (M.item w c.pvAddr)
    let r := mapRemove (T.map handler) c.toPointer w
    (Probing.lookup T.layout (T.contents w) k = none ∧ M.item r.2 = M.item w) ∨
    ∃ d y, Probing.find T.layout (T.contents w) k = some d ∧
      T.null (T.contents w (T.layout.path k d)) = false ∧ T.null y = true ∧ r.1 = .success ∧
      M.item r.2 = Function.update (M.item w) (T.array.slot (T.layout.path k d)).pvAddr y := by
  intro k r
  obtain ⟨hashed, keeps⟩ := T.hash_key c.toCell w
  have call : r = mapRemove (T.map handler) c.toPointer w := rfl
  have hashable : (T.map handler).ptHashablePointerApi.deref = T.hashable := rfl
  have array : (T.map handler).ptHashMap.deref = T.array.root := rfl
  simp only [mapRemove, T.verify handler, hashable, array, hashed, ne_eq, not_true_eq_false, if_false]
    at call
  generalize (T.hashable.hash.deref c.toPointer w).2 = w₀ at keeps call
  have spec := mapProbe_find handler c w₀ (fun _ _ w => (⟨.success, default⟩, w))
    (fun _ zIndex w => (⟨(T.array.root.ptApi.deref.removeAt.deref zIndex w).1, default⟩,
      (T.array.root.ptApi.deref.removeAt.deref zIndex w).2))
  simp only [keeps, T.contents_congr keeps] at spec
  rcases spec with ⟨none, full, same⟩ | ⟨d, w', found, same, result⟩
  · left
    rw [call]
    exact ⟨Probing.lookup_full none, same⟩
  · rw [result] at call
    cases free : T.null (T.contents w (T.layout.path k d)) with
    | true =>
      left
      rw [free, if_pos rfl] at call
      rw [call]
      exact ⟨Probing.lookup_free found free, same⟩
    | false =>
      right
      rw [free, if_neg Bool.false_ne_true] at call
      obtain ⟨ok, y, reset, removed⟩ := T.removeAt_null (T.layout.path k d) w' (T.layout.path k d).2
      rw [same] at removed
      rw [call]
      exact ⟨d, y, found, free, reset, ok, removed⟩

end Calls

end MapTable

/-! ## Runs -/

variable {ω α κ : Type} {M : ItemMemory ω α} [DecidableEq κ]

/-- A call of the client: it writes the item to a variable of its own and passes that.
Items that are stored are not null. -/
inductive MapCall (T : MapTable M κ) where
  | set (c : T.array.Client) (x : α) (item : T.null x = false)
  | get (c : T.array.Client) (x : α)
  | remove (c : T.array.Client) (x : α)

/-- The world, call by call; the root of the map never changes. -/
def mapMachine (T : MapTable M κ) (handler : Handler M) : Machine ω (MapCall T) (Reply α) where
  step w call :=
    match call with
    | .set c x _ =>
      let r := mapSet M.apis (T.map handler) c.toPointer (M.store w c.pvAddr x)
      (⟨r.1, none⟩, r.2)
    | .get c x =>
      let r := mapGet M.apis (T.map handler) c.toPointer (M.store w c.pvAddr x)
      (⟨r.1.tStatus, if r.1.tStatus = .success then some (M.item r.2 r.1.tOk.pvAddr) else none⟩, r.2)
    | .remove c x =>
      let r := mapRemove (T.map handler) c.toPointer (M.store w c.pvAddr x)
      (⟨r.1, none⟩, r.2)

section Runs

variable {T : MapTable M κ}

/-- The finite map after a call, by its reply. -/
def record (m : κ → Option α) (e : MapCall T × Reply α) : κ → Option α :=
  match e.1 with
  | .set _ x _ => if e.2.tStatus = .success then Function.update m (T.key x) (some x) else m
  | .get _ _ => m
  | .remove _ x => Function.update m (T.key x) none

/-- The item of the last successful set of each key with no later remove of it. -/
def latest (es : List (MapCall T × Reply α)) : κ → Option α := es.foldl record fun _ => none

/-- The table holds the finite map `m`: a get answers with the item of its key, or that
there is none, and no key is in two slots. -/
structure HoldsMap (T : MapTable M κ) (handler : Handler M) (m : κ → Option α) (w : ω) : Prop where
  found : ∀ c x y, m (T.key x) = some y →
    ((mapMachine T handler).step w (.get c x)).1 = ⟨.success, some y⟩
  absent : ∀ c x, m (T.key x) = none →
    ((mapMachine T handler).step w (.get c x)).1.tStatus = .dneError ∨
      ((mapMachine T handler).step w (.get c x)).1.tStatus = .tableFullError
  unique : ∀ i j, T.null (T.contents w i) = false → T.null (T.contents w j) = false →
    T.key (T.contents w i) = T.key (T.contents w j) → i = j

/-- The call gives up no slot that another stored key's path passes before its own. -/
def KeepsChains (T : MapTable M κ) (w : ω) : MapCall T → Prop
  | .remove _ x => ∀ i j, T.null (T.contents w i) = false → T.key (T.contents w i) = T.key x →
    T.null (T.contents w j) = false → j ≠ i → ¬Probing.Blocks T.layout (T.contents w) i j
  | _ => True

variable (handler : Handler M)

theorem contents_store (w : ω) (c : T.array.Client) (x : α) :
    T.contents (M.store w c.pvAddr x) = T.contents w :=
  T.contents_client c (M.item_store _ _ _)

theorem item_own (w : ω) (c : T.array.Client) (x : α) :
    M.item (M.store w c.pvAddr x) c.pvAddr = x := by
  rw [M.item_store, Function.update_self]

/-- A get answers with what the search finds. -/
theorem map_get (w : ω) (c : T.array.Client) (x : α) :
    let r := (mapMachine T handler).step w (.get c x)
    T.contents r.2 = T.contents w ∧
    match Probing.lookup T.layout (T.contents w) (T.key x) with
    | none => r.1.tStatus = .dneError ∨ r.1.tStatus = .tableFullError
    | some y => r.1 = ⟨.success, some y⟩ := by
  intro r
  have spec := MapTable.mapGet_spec handler c (M.store w c.pvAddr x)
  rw [item_own, contents_store] at spec
  obtain ⟨keeps, found⟩ := spec
  refine ⟨(T.contents_congr keeps).trans (contents_store w c x), ?_⟩
  simp only [r, mapMachine]
  cases held : Probing.lookup T.layout (T.contents w) (T.key x) with
  | none =>
    rw [held] at found
    exact found
  | some y =>
    rw [held] at found
    rw [found.1, if_pos rfl, found.2]

/-- What the search finds is what the table holds. -/
theorem holdsMap_lookup {w : ω} (h : Probing.Reachable T.layout (T.contents w)) :
    HoldsMap T handler (Probing.lookup T.layout (T.contents w)) w := by
  refine ⟨fun c x y found => ?_, fun c x none => ?_, fun i j hi hj same => h.unique hi hj same⟩
  · have answer := (map_get handler w c x).2
    rw [found] at answer
    exact answer
  · have answer := (map_get handler w c x).2
    rw [none] at answer
    exact answer

/-- A call that keeps the chains is an update of the finite map that the search reads. -/
theorem map_step {w : ω} (h : Probing.Reachable T.layout (T.contents w)) (call : MapCall T)
    (kept : KeepsChains T w call) :
    let r := (mapMachine T handler).step w call
    Probing.Reachable T.layout (T.contents r.2) ∧
      Probing.lookup T.layout (T.contents r.2) =
        record (Probing.lookup T.layout (T.contents w)) (call, r.1) := by
  intro r
  cases call with
  | get c x =>
    have same : T.contents r.2 = T.contents w := (map_get handler w c x).1
    rw [same]
    exact ⟨h, rfl⟩
  | set c x item =>
    have spec := MapTable.mapSet_spec handler c (M.store w c.pvAddr x)
    rw [item_own, contents_store] at spec
    rcases spec with ⟨-, full, keeps⟩ | ⟨d, found, ok, written⟩
    · have same : T.contents r.2 = T.contents w := (T.contents_congr keeps).trans (contents_store w c x)
      have failed : r.1.tStatus ≠ .success := by
        have status : r.1.tStatus = .tableFullError := full
        rw [status]
        decide
      rw [same]
      exact ⟨h, (if_neg failed).symm⟩
    · have next : T.contents r.2 = Function.update (T.contents w) (T.layout.path (T.key x) d) x := by
        rw [← contents_store w c x]
        exact T.contents_slot _ written
      have done : r.1.tStatus = .success := ok
      rw [next]
      exact ⟨h.update found item, (Probing.lookup_update found h item).trans (if_pos done).symm⟩
  | remove c x =>
    have spec := MapTable.mapRemove_spec handler c (M.store w c.pvAddr x)
    rw [item_own, contents_store] at spec
    rcases spec with ⟨absent, keeps⟩ | ⟨d, y, found, item, free, -, written⟩
    · have same : T.contents r.2 = T.contents w := (T.contents_congr keeps).trans (contents_store w c x)
      have still : Function.update (Probing.lookup T.layout (T.contents w)) (T.key x) none =
          Probing.lookup T.layout (T.contents w) := by
        rw [← absent, Function.update_eq_self]
      rw [same]
      exact ⟨h, still.symm⟩
    · have next : T.contents r.2 = Function.update (T.contents w) (T.layout.path (T.key x) d) y := by
        rw [← contents_store w c x]
        exact T.contents_slot _ written
      have key : T.key (T.contents w (T.layout.path (T.key x) d)) = T.key x := by
        have stops : (T.null (T.contents w (T.layout.path (T.key x) d)) ||
            T.key (T.contents w (T.layout.path (T.key x) d)) = T.key x) = true :=
          (Probing.find_eq_some.1 found).2.1
        rwa [item, Bool.false_or, decide_eq_true_eq] at stops
      have clear := fun j stored other => kept _ j item key stored other
      have without := Probing.lookup_reset free h item clear
      rw [next]
      exact ⟨h.reset free clear, without.trans (congrArg (fun k => Function.update _ k none) key)⟩

/-- A run that keeps the chains holds the finite map of its calls. -/
theorem map_run {w : ω} (h : Probing.Reachable T.layout (T.contents w)) {calls : List (MapCall T)}
    (kept : (mapMachine T handler).Along (KeepsChains T) w calls) :
    HoldsMap T handler
      (((mapMachine T handler).trace w calls).foldl record (Probing.lookup T.layout (T.contents w)))
      ((mapMachine T handler).run w calls) := by
  induction calls generalizing w with
  | nil => exact holdsMap_lookup handler h
  | cons call calls ih =>
    obtain ⟨next, lookup⟩ := map_step handler h call kept.1
    have rest := ih next kept.2
    rw [lookup] at rest
    exact rest

/-- A remove that breaks a chain loses the item behind it. -/
theorem map_loses {w : ω} (h : Probing.Reachable T.layout (T.contents w)) (call : MapCall T)
    (holds : HoldsMap T handler
      (record (Probing.lookup T.layout (T.contents w)) (call, ((mapMachine T handler).step w call).1))
      ((mapMachine T handler).step w call).2) : KeepsChains T w call := by
  cases call with
  | set c x item => trivial
  | get c x => trivial
  | remove c x =>
    intro i j item key stored other blocks
    obtain ⟨e, at_, here⟩ := h i item
    have at_ : Probing.find T.layout (T.contents w) (T.key x) = some e := key ▸ at_
    have here : T.layout.path (T.key x) e = i := key ▸ here
    -- the remove finds the item in slot `i` and resets it
    have spec := MapTable.mapRemove_spec handler c (M.store w c.pvAddr x)
    rw [item_own, contents_store] at spec
    rcases spec with ⟨absent, -⟩ | ⟨d, y, found, -, free, -, written⟩
    · rw [Probing.lookup_item at_ (here ▸ item)] at absent
      contradiction
    obtain rfl : d = e := Option.some.inj (found.symm.trans at_)
    rw [here] at written
    have next : T.contents ((mapMachine T handler).step w (.remove c x)).2 =
        Function.update (T.contents w) i y := by
      rw [← contents_store w c x]
      exact T.contents_slot _ written
    -- the item in slot `j` is still the latest of its key, but no search ends there
    have lost : Probing.lookup T.layout (Function.update (T.contents w) i y) (T.key (T.contents w j)) =
        none := Probing.lookup_blocked free h stored blocks
    have keys : T.key (T.contents w j) ≠ T.key x := by
      intro same
      exact other (h.unique stored item (same.trans key.symm))
    have ghost : record (Probing.lookup T.layout (T.contents w))
        (.remove c x, ((mapMachine T handler).step w (.remove c x)).1) (T.key (T.contents w j)) =
        some (T.contents w j) :=
      (Function.update_of_ne keys _ _).trans (h.lookup_eq stored)
    have found := holds.found c (T.contents w j) _ ghost
    have answer := (map_get handler ((mapMachine T handler).step w (.remove c x)).2 c (T.contents w j)).2
    rw [next, lost, found] at answer
    rcases answer with dne | full
    · simp at dne
    · simp at full

/-- A run in which the table always holds the finite map of the calls so far keeps the
chains. -/
theorem map_run_keeps {w : ω} (h : Probing.Reachable T.layout (T.contents w)) {calls : List (MapCall T)}
    (holds : ∀ front rest, calls = front ++ rest → HoldsMap T handler
      (((mapMachine T handler).trace w front).foldl record (Probing.lookup T.layout (T.contents w)))
      ((mapMachine T handler).run w front)) :
    (mapMachine T handler).Along (KeepsChains T) w calls := by
  induction calls generalizing w with
  | nil => trivial
  | cons call calls ih =>
    have kept : KeepsChains T w call := map_loses handler h call (holds [call] calls rfl)
    obtain ⟨next, lookup⟩ := map_step handler h call kept
    refine ⟨kept, ih next fun front rest split => ?_⟩
    rw [lookup]
    exact holds (call :: front) rest (by rw [split, List.cons_append])

/-- At every point of the run the table holds the finite map of the calls so far. -/
def RefinesMap (T : MapTable M κ) (handler : Handler M) (w : ω) (calls : List (MapCall T)) : Prop :=
  ∀ front rest, calls = front ++ rest →
    HoldsMap T handler (latest ((mapMachine T handler).trace w front)) ((mapMachine T handler).run w front)

/-- Over a table whose slots are all empty, a run of the map refines a finite map exactly
if every remove in it keeps the chains. -/
theorem map_refines_iff (T : MapTable M κ) (handler : Handler M) (w : ω)
    (empty : ∀ i, T.null (T.contents w i) = true) (calls : List (MapCall T)) :
    RefinesMap T handler w calls ↔ (mapMachine T handler).Along (KeepsChains T) w calls := by
  have start : Probing.Reachable T.layout (T.contents w) := Probing.reachable_empty empty
  have nothing : Probing.lookup T.layout (T.contents w) = fun _ => none := Probing.lookup_empty empty
  constructor
  · intro refines
    refine map_run_keeps handler start fun front rest split => ?_
    rw [nothing]
    exact refines front rest split
  · rintro kept front rest rfl
    have run := map_run handler start (Machine.along_append.1 kept).1
    rw [nothing] at run
    exact run

/-- A table of ten slots for entries of a key and a value, the key being its own hash. -/
def plainTable : MapTable (plainMemory (Option (Nat × Nat))) Nat where
  array := plainArray _ 1 10
  hashable :=
    { hash := Ref.to fun tItem w => (⟨.success, ((w tItem.pvAddr).getD (0, 0)).1⟩, w)
      isValueNull := Ref.to fun tItem w => (⟨.success, (w tItem.pvAddr).isNone⟩, w) }
  value :=
    { equals := Ref.to fun tLeft tRight w => (⟨.success,
        decide (((w tLeft.pvAddr).getD (0, 0)).1 = ((w tRight.pvAddr).getD (0, 0)).1)⟩, w) }
  null x := x.isNone
  key x := (x.getD (0, 0)).1
  hashOf k := k
  pos := by decide
  present := rfl
  hash_key _ _ := ⟨rfl, rfl⟩
  isValueNull_null _ _ := ⟨rfl, rfl⟩
  equals_key _ _ _ _ := ⟨rfl, rfl⟩
  getAt_ok _ _ _ := rfl
  removeAt_null _ _ _ := ⟨rfl, none, rfl, rfl⟩
  copy_ok _ _ _ := rfl

abbrev plainVariable : plainTable.array.Client := plainClient _ 1 10 0 Nat.one_pos

/-- The last item of a chain can be removed. -/
theorem map_refines_last :
    RefinesMap plainTable (noPlainHandler _) (fun _ => none)
      [.set plainVariable (some (5, 100)) rfl, .set plainVariable (some (15, 200)) rfl,
        .remove plainVariable (some (15, 0)), .get plainVariable (some (5, 0))] := by
  refine (map_refines_iff plainTable (noPlainHandler _) (fun _ => none) (fun _ => rfl) _).2 ?_
  refine ⟨trivial, trivial, ?_, trivial, trivial⟩
  show ∀ i j, _
  decide

/-- The first item of a chain cannot: the second is not found any more. -/
theorem map_remove_loses :
    ¬RefinesMap plainTable (noPlainHandler _) (fun _ => none)
      [.set plainVariable (some (5, 100)) rfl, .set plainVariable (some (15, 200)) rfl,
        .remove plainVariable (some (5, 0))] := by
  intro refines
  have found := (refines _ [] (List.append_nil _).symm).found plainVariable (some (15, 0))
    (some (15, 200)) (by decide)
  exact absurd found (by decide)

end Runs

end LibJuno.Ds
