import Klein.Machine.Layout
import Mathlib.Data.List.Basic
import Mathlib.Data.List.Nodup

namespace Klein.Machine

/-- A command that is to be made, with its comment, and the number that it is to have if one was
    chosen. -/
structure Request where
  command : Command
  comment : Option String := none
  number : Option Int := none

/-- The number of choice, where zero stands for no choice. -/
def Request.chosen? (r : Request) : Option Int :=
  if r.number = some 0 then none else r.number

theorem Request.number_of_chosen {r : Request} {n : Int} (h : r.chosen? = some n) :
    r.number = some n ∧ n ≠ 0 := by
  rw [chosen?] at h
  split at h
  · cases h
  · next hzero => exact ⟨h, fun hn => hzero (hn ▸ h)⟩

/-- The command with the number it gets where some number is the next one. -/
def Request.entry (r : Request) (next : Nat) : Entry :=
  ⟨r.chosen?.getD next, r.command, r.comment⟩

namespace Layout

/-- Make a command. -/
def make (l : Layout) (r : Request) : Except DuplicateNumber (Entry × Layout) :=
  match r.number with
  | none => .ok (l.append r.command r.comment)
  | some number => l.place r.command r.comment number

/-- Make commands one after another. A command that is refused leaves the layout as it is. -/
def makeAll (l : Layout) : List Request → List (Except DuplicateNumber Entry)
  | [] => []
  | r :: rest =>
    match l.make r with
    | .ok (e, next) => .ok e :: next.makeAll rest
    | .error refusal => .error refusal :: l.makeAll rest

variable {l : Layout}

theorem make_eq {r : Request} (hfree : ∀ n ∈ r.number, n ∉ l.reserved) :
    l.make r = .ok (r.entry l.next, l.widen (r.entry l.next)) := by
  cases hnumber : r.number with
  | none => simp [make, append, Request.entry, Request.chosen?, hnumber]
  | some n =>
    have hn := hfree n hnumber
    by_cases hzero : n = 0
    · subst hzero
      simp [make, place, append, Request.entry, Request.chosen?, hnumber, hn]
    · simp [make, place, Request.entry, Request.chosen?, hnumber, hn, hzero]

/-- Nothing is refused where no number is reserved, and nothing gets reserved. -/
theorem makeAll_eq (hnone : l.reserved = []) (requests : List Request) :
    l.makeAll requests = (requests.mapIdx fun i r => r.entry (l.next + i)).map .ok := by
  induction requests generalizing l with
  | nil => rfl
  | cons r requests ih =>
    have hmake := @make_eq l r (by simp [hnone])
    have hrest := @ih (l.widen (r.entry l.next)) hnone
    have hnext : (l.widen (r.entry l.next)).next = l.next + 1 := rfl
    rw [makeAll, hmake, List.mapIdx_cons, List.map_cons]
    simp only [hrest, hnext, Nat.add_zero, Nat.add_assoc, Nat.add_comm 1]

end Layout

/-- The numbers of the commands that were made. -/
def madeNumbers (made : List (Except DuplicateNumber Entry)) : List Int :=
  made.filterMap fun outcome => outcome.toOption.map (·.number)

/-- The commands that were made have different numbers, and where the number of choice was not
    that of a command before, it is that of the command. -/
structure WellNumbered (requests : List Request) (made : List (Except DuplicateNumber Entry)) :
    Prop where
  distinct : (madeNumbers made).Nodup
  kept : ∀ (i : Nat) (r : Request) (n : Int), requests[i]? = some r → r.number = some n →
    n ∉ madeNumbers (made.take i) → ∃ e, made[i]? = some (.ok e) ∧ e.number = n

/-- The choice of numbers does not give rise to a conflict: no number is chosen twice, none is the
    place of a command without a number, and zero is chosen only where the first command has it. -/
structure Compatible (requests : List Request) : Prop where
  distinct : (requests.filterMap Request.chosen?).Nodup
  free : ∀ (i : Nat) (r : Request), requests[i]? = some r → r.chosen? = none →
    (i : Int) ∉ requests.filterMap Request.chosen?
  zero : ∀ r ∈ requests, r.number = some 0 → ∀ first ∈ requests.head?, first.chosen? = none

/-- The commands with the numbers they get from the start: the numbers of choice, and the places of
    the commands without one. -/
def numberedEntries (requests : List Request) : List Entry :=
  requests.mapIdx fun i r => r.entry i

theorem madeNumbers_ok (entries : List Entry) :
    madeNumbers (entries.map .ok) = entries.map (·.number) := by
  rw [madeNumbers, List.filterMap_map, ← List.filterMap_eq_map]
  rfl

variable {requests : List Request}

theorem nodup_numberedEntries_iff : ((numberedEntries requests).map (·.number)).Nodup ↔
    (requests.filterMap Request.chosen?).Nodup ∧
      ∀ (i : Nat) (r : Request), requests[i]? = some r → r.chosen? = none →
        (i : Int) ∉ requests.filterMap Request.chosen? := by
  change List.Pairwise (· ≠ ·) _ ↔ List.Pairwise (· ≠ ·) _ ∧ _
  rw [List.pairwise_filterMap, List.pairwise_iff_getElem, List.pairwise_iff_getElem]
  simp only [numberedEntries, List.getElem_map, List.getElem_mapIdx, List.length_map,
    List.length_mapIdx, Request.entry]
  constructor
  · intro h
    refine ⟨fun i j hi hj hij m hm n hn => ?_, fun i r hi hnone hmem => ?_⟩
    · simpa [hm, hn] using h i j hi hj hij
    · obtain ⟨q, hq, hchosen⟩ := List.mem_filterMap.mp hmem
      obtain ⟨j, hj, rfl⟩ := List.mem_iff_getElem.mp hq
      obtain ⟨hlt, rfl⟩ := List.getElem?_eq_some_iff.mp hi
      rcases Nat.lt_trichotomy i j with hij | rfl | hij
      · exact h i j hlt hj hij (by simp [hnone, hchosen])
      · simp [hnone] at hchosen
      · exact h j i hj hlt hij (by simp [hnone, hchosen])
  · rintro ⟨hdistinct, hfree⟩ i j hi hj hij
    have hmem : ∀ (k : Nat) (hk : k < requests.length) (n : Int), requests[k].chosen? = some n →
        n ∈ requests.filterMap Request.chosen? :=
      fun k hk n h => List.mem_filterMap.mpr ⟨_, List.getElem_mem hk, h⟩
    have hplace := fun k hk => hfree k _ (List.getElem?_eq_getElem hk)
    cases hm : requests[i].chosen? with
    | none =>
      cases hn : requests[j].chosen? with
      | none => exact fun h => Nat.ne_of_lt hij (Int.ofNat_inj.mp h)
      | some n => exact fun h => hplace i hi hm (hmem j hj _ (hn.trans (congrArg some h.symm)))
    | some m =>
      cases hn : requests[j].chosen? with
      | none => exact fun h => hplace j hj hn (hmem i hi _ (hm.trans (congrArg some h)))
      | some n => exact hdistinct i j hi hj hij m hm n hn

/-- Only the first command can have the number zero. -/
theorem zero_mem_take_iff {i : Nat} :
    0 ∈ ((numberedEntries requests).take i).map (·.number) ↔
      0 < i ∧ ∃ first ∈ requests.head?, first.chosen? = none := by
  rw [List.map_take, List.mem_take_iff_getElem]
  simp only [numberedEntries, List.getElem_map, List.getElem_mapIdx, List.length_map,
    List.length_mapIdx, Request.entry, List.head?_eq_getElem?]
  constructor
  · rintro ⟨j, hj, hnumber⟩
    cases hchosen : requests[j].chosen? with
    | none =>
      obtain rfl : j = 0 := by simpa [hchosen] using hnumber
      exact ⟨by omega, _, List.getElem?_eq_getElem (by omega), hchosen⟩
    | some m =>
      obtain rfl : m = 0 := by simpa [hchosen] using hnumber
      exact absurd rfl (Request.number_of_chosen hchosen).2
  · rintro ⟨hi, first, hfirst, hchosen⟩
    obtain ⟨hlt, rfl⟩ := List.getElem?_eq_some_iff.mp hfirst
    exact ⟨0, by omega, by simp [hchosen]⟩

/-- A number of choice can only be lost if it is zero, where it stands for the place. -/
theorem kept_numberedEntries_iff : (∀ (i : Nat) (r : Request) (n : Int), requests[i]? = some r →
      r.number = some n → n ∉ ((numberedEntries requests).take i).map (·.number) →
      (r.entry i).number = n) ↔
    ∀ r ∈ requests, r.number = some 0 → ∀ first ∈ requests.head?, first.chosen? = none := by
  have hplace : ∀ {r : Request} {i : Nat}, r.number = some 0 → (r.entry i).number = i := by
    intro r i hzero
    simp [Request.entry, Request.chosen?, hzero]
  constructor
  · intro hkept r hr hzero first hfirst
    obtain ⟨i, hi⟩ := List.mem_iff_getElem?.mp hr
    by_cases hmem : 0 ∈ ((numberedEntries requests).take i).map (·.number)
    · obtain ⟨-, other, hother, hchosen⟩ := zero_mem_take_iff.mp hmem
      obtain rfl := Option.mem_unique hother hfirst
      exact hchosen
    · -- the command has got zero as its place, so it is the first one itself
      have hnumber := (hplace hzero).symm.trans (hkept i r 0 hi hzero hmem)
      obtain rfl : i = 0 := by omega
      rw [← List.head?_eq_getElem?] at hi
      obtain rfl := Option.mem_unique hi hfirst
      simp [Request.chosen?, hzero]
  · intro hzero i r n hi hn hnot
    by_cases hn0 : n = 0
    · subst hn0
      have hr := List.mem_of_getElem? hi
      obtain ⟨first, rest, rfl⟩ := List.exists_cons_of_ne_nil (List.ne_nil_of_mem hr)
      have hfirst : ¬ 0 < i := fun h =>
        hnot (zero_mem_take_iff.mpr ⟨h, first, rfl, hzero r hr hn first rfl⟩)
      rw [hplace hn]
      omega
    · simp [Request.entry, Request.chosen?, hn, hn0]

/-- From the start no command is refused. Each gets its number of choice, or its place if it has
    none. They are numbered well if and only if the choice gives rise to no conflict. -/
theorem wellNumbered_iff_compatible (requests : List Request) :
    Layout.makeAll {} requests = (numberedEntries requests).map .ok ∧
      (WellNumbered requests (Layout.makeAll {} requests) ↔ Compatible requests) := by
  have hmade : Layout.makeAll {} requests = (numberedEntries requests).map .ok := by
    have hstart := @Layout.makeAll_eq {} rfl requests
    simpa [numberedEntries] using hstart
  refine ⟨hmade, ?_⟩
  have hgot : ∀ (i : Nat) (r : Request) (n : Int), requests[i]? = some r →
      ((∃ e, ((numberedEntries requests).map Except.ok)[i]? =
          some (.ok e : Except DuplicateNumber Entry) ∧ e.number = n) ↔
        (r.entry i).number = n) := by
    intro i r n hi
    simp [numberedEntries, hi]
  rw [hmade]
  constructor
  · rintro ⟨hdistinct, hkept⟩
    rw [madeNumbers_ok] at hdistinct
    obtain ⟨hchosen, hfree⟩ := nodup_numberedEntries_iff.mp hdistinct
    refine ⟨hchosen, hfree, kept_numberedEntries_iff.mp fun i r n hi hn hnot => ?_⟩
    rw [← madeNumbers_ok, List.map_take] at hnot
    exact (hgot i r n hi).mp (hkept i r n hi hn hnot)
  · rintro ⟨hchosen, hfree, hzero⟩
    refine ⟨?_, fun i r n hi hn hnot => ?_⟩
    · rw [madeNumbers_ok]
      exact nodup_numberedEntries_iff.mpr ⟨hchosen, hfree⟩
    · rw [← List.map_take, madeNumbers_ok] at hnot
      exact (hgot i r n hi).mpr (kept_numberedEntries_iff.mpr hzero i r n hi hn hnot)

/-- A number that is chosen twice is given twice. -/
theorem not_wellNumbered_twice :
    ¬ WellNumbered (List.replicate 2 { command := Instruction.halt.command, number := some 5 })
      (Layout.makeAll {}
        (List.replicate 2 { command := Instruction.halt.command, number := some 5 })) := by
  intro h
  have hnodup : ([5, 5] : List Int).Nodup := h.distinct
  simp at hnodup

end Klein.Machine
