import LetterMachine.Seed

/-!
# What a seed leaves in the slots

A seed gives values to slots, one after the other.  A slot holds the value of the last pair whose key
names it, and what it held before if no key does: zero in a new state, the old value where the seed
is laid over a state.
-/

namespace LetterMachine

theorem Answer.bind_eq_ok {ε α β : Type} {a : Except ε α} {next : α → Except ε β} {y : β}
    (h : a >>= next = .ok y) : ∃ x, a = .ok x ∧ next x = .ok y := by
  cases a with
  | error f => cases h
  | ok x => exact ⟨x, rfl, h⟩

theorem mapM_eq_pure {m : Type → Type} [Monad m] [LawfulMonad m] {α β : Type} {next : α → m β}
    {f : α → β} {xs : List α} (h : ∀ x ∈ xs, next x = pure (f x)) :
    xs.mapM next = pure (xs.map f) := by
  induction xs with
  | nil => rfl
  | cons x xs ih =>
    obtain ⟨hx, hxs⟩ := List.forall_mem_cons.mp h
    simp [List.mapM_cons, hx, ih hxs]

/-- What holds of each answer holds of all answers in a row. -/
theorem Answer.forall_of_mapM {α β : Type} {next : α → Answer β} {P : β → Prop}
    (hP : ∀ x y, next x = .ok y → P y) {xs : List α} {ys : List β} (h : xs.mapM next = .ok ys) :
    ∀ y ∈ ys, P y := by
  induction xs generalizing ys with
  | nil =>
    obtain rfl := Except.ok.inj h
    exact fun y hy => by cases hy
  | cons x xs ih =>
    rw [List.mapM_cons] at h
    obtain ⟨y, hy, h⟩ := Answer.bind_eq_ok h
    obtain ⟨rest, hrest, h⟩ := Answer.bind_eq_ok h
    obtain rfl := Except.ok.inj h
    exact List.forall_mem_cons.mpr ⟨hP x y hy, ih hrest⟩

namespace State

section

variable (seeded : State) {slots : List Slot} (s : State) {i : Slot}

theorem get_foldl_set_of_not_mem (h : i ∉ slots) :
    (slots.foldl (fun t j => t.set j (seeded.get j)) s).get i = s.get i := by
  induction slots generalizing s with
  | nil => rfl
  | cons j slots ih =>
    have hj : j ≠ i := fun heq => h (heq ▸ List.mem_cons_self)
    rw [List.foldl_cons, ih _ fun hmem => h (List.mem_cons_of_mem j hmem), get_set, if_neg hj]

/-- A state with slots overwritten from another holds in them what the other holds. -/
theorem get_foldl_set_of_mem (h : i ∈ slots) :
    (slots.foldl (fun t j => t.set j (seeded.get j)) s).get i = seeded.get i := by
  induction slots generalizing s with
  | nil => cases h
  | cons j slots ih =>
    rw [List.foldl_cons]
    by_cases hi : i ∈ slots
    · exact ih _ hi
    · obtain rfl : i = j := (List.mem_cons.mp h).resolve_right hi
      rw [get_foldl_set_of_not_mem seeded _ hi, get_set, if_pos rfl]

end

end State

namespace Seed

/-- The pairs of a seed, in order. -/
def entries : Seed → List (Datum × Datum)
  | none | other _ => []
  | values ds => numbered ds
  | named pairs => pairs

/-- The values that pairs give to a slot, in order. -/
def valuesFor (i : Slot) (pairs : List (Datum × Datum)) : List Int :=
  pairs.filterMap fun (key, value) =>
    if (Slot.ofDatum key).toOption = some i then value.whole? else .none

/-- A state with the values of a seed: in each slot the last value given to it, and what it held
where none is. -/
def laidOver (seed : Seed) (s : State) : State :=
  State.ofSlots fun i => (valuesFor i seed.entries).getLast?.getD (s.get i)

theorem get_laidOver (seed : Seed) (s : State) (i : Slot) :
    (seed.laidOver s).get i = (valuesFor i seed.entries).getLast?.getD (s.get i) :=
  State.get_ofSlots _ i

/-! ## Placing pairs -/

def placeAll (s : State) (pairs : List (Datum × Datum)) : Answer State :=
  pairs.foldlM (fun s (key, value) => place s key value) s

/-- A pair is placed only if its value is a number and its key names a slot. -/
theorem place_eq_ok {s t : State} {key value : Datum} (h : place s key value = .ok t) :
    ∃ i x, Slot.ofDatum key = .ok i ∧ value.whole? = some x ∧ t = s.set i x := by
  unfold place at h
  obtain ⟨x, hx, h⟩ := Answer.bind_eq_ok h
  obtain ⟨i, hi, h⟩ := Answer.bind_eq_ok h
  refine ⟨i, x, hi, ?_, (Except.ok.inj h).symm⟩
  unfold checked at hx
  split at hx
  · next hwhole => rw [hwhole, Except.ok.inj hx]
  · cases hx

theorem valuesFor_cons {key value : Datum} {j : Slot} {x : Int} (hkey : Slot.ofDatum key = .ok j)
    (hvalue : value.whole? = some x) (i : Slot) (pairs : List (Datum × Datum)) :
    valuesFor i ((key, value) :: pairs) =
      if j = i then x :: valuesFor i pairs else valuesFor i pairs := by
  unfold valuesFor
  rw [List.filterMap_cons]
  simp only [hkey, hvalue, Except.toOption, Option.some.injEq]
  by_cases hj : j = i
  · rw [if_pos hj, if_pos hj]
  · rw [if_neg hj, if_neg hj]

/-- Pairs that are placed one after the other leave in each slot the last value given to it. -/
theorem get_of_placeAll {s t : State} {pairs : List (Datum × Datum)}
    (h : placeAll s pairs = .ok t) (i : Slot) :
    t.get i = (valuesFor i pairs).getLast?.getD (s.get i) := by
  induction pairs generalizing s with
  | nil =>
    obtain rfl := Except.ok.inj h
    rfl
  | cons pair pairs ih =>
    obtain ⟨key, value⟩ := pair
    obtain ⟨next, hnext, h⟩ := Answer.bind_eq_ok h
    obtain ⟨j, x, hkey, hvalue, rfl⟩ := place_eq_ok hnext
    rw [ih h, State.get_set, valuesFor_cons hkey hvalue]
    by_cases hj : j = i
    · rw [if_pos hj, if_pos hj, List.getLast?_cons]
      rfl
    · rw [if_neg hj, if_neg hj]

/-- What is placed gives a value to each slot that a key names. -/
theorem slots_of_placeAll {s t : State} {pairs : List (Datum × Datum)}
    (h : placeAll s pairs = .ok t) :
    ∃ slots, pairs.mapM (fun (key, _) => Slot.ofDatum key) = .ok slots ∧
      ∀ i, i ∈ slots ↔ valuesFor i pairs ≠ [] := by
  induction pairs generalizing s with
  | nil => exact ⟨[], rfl, fun i => iff_of_false List.not_mem_nil (fun hne => hne rfl)⟩
  | cons pair pairs ih =>
    obtain ⟨key, value⟩ := pair
    obtain ⟨next, hnext, h⟩ := Answer.bind_eq_ok h
    obtain ⟨j, x, hkey, hvalue, -⟩ := place_eq_ok hnext
    obtain ⟨slots, hslots, hmem⟩ := ih h
    refine ⟨j :: slots, ?_, fun i => ?_⟩
    · rw [List.mapM_cons, hslots]
      simp only [hkey]
      rfl
    · rw [valuesFor_cons hkey hvalue, List.mem_cons, hmem]
      by_cases hj : j = i
      · rw [if_pos hj]
        exact iff_of_true (.inl hj.symm) (List.cons_ne_nil x _)
      · rw [if_neg hj]
        exact or_iff_right fun hi => hj hi.symm

/-! ## First states and overlays -/

/-- A list counts as the table of its places. -/
theorem state_values (ds : List Datum) :
    (values ds).state =
      if ds.length > 23 then .error (.seedLength ds.length)
      else placeAll State.zero (values ds).entries := rfl

/-- What a first state is made from: nothing, or pairs that are placed on zeros. -/
theorem placeAll_of_state {seed : Seed} {t : State} (h : seed.state = .ok t) :
    placeAll State.zero seed.entries = .ok t := by
  cases seed with
  | none => exact h
  | named pairs => exact h
  | values ds =>
    rw [state_values] at h
    split at h
    · cases h
    · exact h
  | other d => cases h

theorem eq_laidOver_of_state {seed : Seed} {t : State} (h : seed.state = .ok t) :
    t = seed.laidOver State.zero := by
  apply State.ext_get
  intro i
  rw [get_laidOver, get_of_placeAll (placeAll_of_state h)]

theorem slots_eq_mapM {seed : Seed} {t : State} (h : seed.state = .ok t) (hne : seed ≠ .none) :
    seed.slots = seed.entries.mapM fun (key, _) => Slot.ofDatum key := by
  cases seed with
  | none => exact absurd rfl hne
  | named pairs => rfl
  | other d => cases h
  | values ds =>
    have hkeys : (ds.mapIdx fun i _ => Datum.whole i) = (numbered ds).map Prod.fst := by
      unfold numbered
      apply List.ext_getElem?
      intro i
      rw [List.getElem?_mapIdx, List.getElem?_map, List.getElem?_mapIdx, Option.map_map]
      rfl
    have hslots : (values ds).slots = (ds.mapIdx fun i _ => Datum.whole i).mapM Slot.ofDatum := rfl
    rw [hslots, hkeys, List.mapM_map]
    rfl

/-- A seed that makes a first state can be laid over any state, and changes the slots that it names
only. -/
theorem overlay_of_state {seed : Seed} {t : State} (h : seed.state = .ok t) (hne : seed ≠ .none)
    (s : State) : seed.overlay s = .ok (seed.laidOver s) := by
  obtain ⟨slots, hslots, hmem⟩ := slots_of_placeAll (placeAll_of_state h)
  have hoverlay : seed.overlay s = .ok (slots.foldl (fun u i => u.set i (t.get i)) s) := by
    cases seed with
    | none => exact absurd rfl hne
    | named pairs | values ds | other d =>
      unfold overlay
      simp only [h, slots_eq_mapM h hne, hslots]
      rfl
  rw [hoverlay]
  refine congrArg Except.ok (State.ext_get fun i => ?_)
  rw [get_laidOver]
  by_cases hi : i ∈ slots
  · have hx := List.getLast?_eq_some_getLast ((hmem i).mp hi)
    rw [State.get_foldl_set_of_mem t s hi, eq_laidOver_of_state h, get_laidOver, hx,
      Option.getD_some, Option.getD_some]
  · have hnil : valuesFor i seed.entries = [] :=
      Decidable.not_not.mp fun hvalues => hi ((hmem i).mpr hvalues)
    rw [State.get_foldl_set_of_not_mem t s hi, hnil]
    rfl

theorem exists_state_of_overlay {seed : Seed} {s t : State} (h : seed.overlay s = .ok t) :
    seed ≠ .none ∧ ∃ u, seed.state = .ok u := by
  cases seed with
  | none => cases h
  | named pairs | values ds | other d =>
    obtain ⟨u, hu, -⟩ := Answer.bind_eq_ok h
    exact ⟨(fun h => by cases h), u, hu⟩

/-- A seed that can be laid over a state leaves in each slot the last value given to it. -/
theorem eq_laidOver_of_overlay {seed : Seed} {s t : State} (h : seed.overlay s = .ok t) :
    t = seed.laidOver s := by
  obtain ⟨hne, u, hu⟩ := exists_state_of_overlay h
  rw [overlay_of_state hu hne s] at h
  exact (Except.ok.inj h).symm

end Seed

end LetterMachine
