import LetterMachine.Proofs.SeedPairs

/-!
# Seeding as an overlay

A seed is laid over a workspace: the slots that its keys name get the numbers that they have in the
first state of the seed, and the other slots keep theirs.  So a new workspace is one of zeros with
the seed laid over, a list seeds as the table of its places, seeds for different slots can change
places, and a state gives itself back as a seed.
-/

namespace LetterMachine

open LetterMachine.Text

theorem Slot.ofDatum_whole (i : Slot) : ofDatum (.whole i.val) = .ok i := by
  have hi : 0 ≤ (i.val : Int) ∧ (i.val : Int) < 23 := by omega
  exact dif_pos hi

theorem Slot.val_of_ofDatum_whole {n : Nat} {i : Slot} (h : ofDatum (.whole n) = .ok i) :
    n = i.val := by
  have hnumber : ofNumber n = .ok i := h
  unfold ofNumber at hnumber
  split at hnumber
  · obtain rfl := Except.ok.inj hnumber
    rfl
  · cases hnumber

theorem Slot.ofText_name (i : Slot) : ofText i.name = .ok i := by
  apply Seed.isNameOf_iff.mp
  revert i
  decide

namespace Seed

/-- Does a key of the seed name the slot? -/
def Names (seed : Seed) (i : Slot) : Prop := ∃ entry ∈ seed.entries, Slot.ofDatum entry.1 = .ok i

/-! ## Pairs that can be placed -/

/-- Pairs can be placed only if each of them has a key that names a slot and a value that is a
number. -/
theorem forall_of_placeAll {s t : State} {pairs : List (Datum × Datum)}
    (h : placeAll s pairs = .ok t) :
    ∀ entry ∈ pairs, ∃ i x, Slot.ofDatum entry.1 = .ok i ∧ entry.2.whole? = some x := by
  induction pairs generalizing s with
  | nil => exact fun entry hentry => by cases hentry
  | cons pair pairs ih =>
    obtain ⟨next, hnext, h⟩ := Answer.bind_eq_ok h
    obtain ⟨i, x, hkey, hvalue, -⟩ := place_eq_ok hnext
    exact List.forall_mem_cons.mpr ⟨⟨i, x, hkey, hvalue⟩, ih h⟩

variable {seed seed' : Seed} {i : Slot}

theorem valuesFor_of_not_names (h : ¬ seed.Names i) : valuesFor i seed.entries = [] := by
  refine List.filterMap_eq_nil_iff.mpr fun entry hentry => if_neg fun hkey => h ⟨entry, hentry, ?_⟩
  cases hslot : Slot.ofDatum entry.1 with
  | error f =>
    rw [hslot] at hkey
    cases hkey
  | ok j =>
    rw [hslot] at hkey
    rw [Option.some.inj hkey]

theorem valuesFor_ne_nil {t : State} (h : seed.state = .ok t) (hi : seed.Names i) :
    valuesFor i seed.entries ≠ [] := by
  obtain ⟨entry, hentry, hkey⟩ := hi
  obtain ⟨-, x, -, hvalue⟩ := forall_of_placeAll (placeAll_of_state h) entry hentry
  have hx : x ∈ valuesFor i seed.entries := by
    have hslot : (Slot.ofDatum entry.1).toOption = some i := congrArg Except.toOption hkey
    exact List.mem_filterMap.mpr ⟨entry, hentry, (if_pos hslot).trans hvalue⟩
  exact List.ne_nil_of_mem hx

/-! ## What is laid over -/

/-- A slot that is named gets the number that it has in the first state. -/
theorem get_laidOver_of_names {t : State} (h : seed.state = .ok t) (hi : seed.Names i) (s : State) :
    (seed.laidOver s).get i = t.get i := by
  have hlast := List.getLast?_eq_some_getLast (valuesFor_ne_nil h hi)
  rw [eq_laidOver_of_state h, get_laidOver, get_laidOver, hlast, Option.getD_some, Option.getD_some]

theorem get_laidOver_of_not_names (h : ¬ seed.Names i) (s : State) :
    (seed.laidOver s).get i = s.get i := by
  rw [get_laidOver, valuesFor_of_not_names h]
  rfl

theorem laidOver_laidOver_self (seed : Seed) (s : State) :
    seed.laidOver (seed.laidOver s) = seed.laidOver s := by
  apply State.ext_get
  intro i
  rw [get_laidOver, get_laidOver]
  cases (valuesFor i seed.entries).getLast? <;> rfl

/-- Seeds that name no slot together can be laid over in any order. -/
theorem laidOver_comm (h : ∀ i, ¬ (seed.Names i ∧ seed'.Names i)) (s : State) :
    seed'.laidOver (seed.laidOver s) = seed.laidOver (seed'.laidOver s) := by
  apply State.ext_get
  intro i
  by_cases hi : seed.Names i
  · have hi' : ¬ seed'.Names i := fun hi' => h i ⟨hi, hi'⟩
    rw [get_laidOver_of_not_names hi', get_laidOver, get_laidOver, get_laidOver_of_not_names hi']
  · rw [get_laidOver_of_not_names hi, get_laidOver, get_laidOver_of_not_names hi, get_laidOver]

theorem overlay_of_state_error {f : Fault} (h : seed.state = .error f) (s : State) :
    seed.overlay s = .error f := by
  cases seed with
  | none => cases h
  | named pairs | values ds | other d =>
    unfold overlay
    simp only [h]
    rfl

/-! ## Lists and tables -/

/-- A list names the first slots, as many as it has numbers. -/
theorem names_values_iff {ds : List Datum} : (values ds).Names i ↔ i.val < ds.length := by
  constructor
  · rintro ⟨entry, hentry, hkey⟩
    obtain ⟨n, hn, rfl⟩ := List.mem_mapIdx.mp hentry
    rw [← Slot.val_of_ofDatum_whole hkey]
    exact hn
  · intro h
    exact ⟨_, List.mem_mapIdx.mpr ⟨i.val, h, rfl⟩, Slot.ofDatum_whole i⟩

theorem state_values_of_le {ds : List Datum} (h : ds.length ≤ 23) :
    (values ds).state = (named (numbered ds)).state := by
  rw [state_values, if_neg (Nat.not_lt.mpr h)]
  rfl

/-- A list with more numbers than there are slots is refused, and so is the table of its places: no
slot has the number of the place behind the accumulator. -/
theorem exists_error_of_long {ds : List Datum} (h : 23 < ds.length) :
    (∃ f, (values ds).state = .error f) ∧ ∃ f, (named (numbered ds)).state = .error f := by
  refine ⟨⟨_, if_pos h⟩, ?_⟩
  cases hplace : (named (numbered ds)).state with
  | error f => exact ⟨f, rfl⟩
  | ok t =>
    have hentry : (Datum.whole 23, ds[23]) ∈ numbered ds := List.mem_mapIdx.mpr ⟨23, h, rfl⟩
    obtain ⟨i, -, hkey, -⟩ := forall_of_placeAll (placeAll_of_state hplace) _ hentry
    have hi : 23 = i.val := Slot.val_of_ofDatum_whole hkey
    omega

/-! ## States as seeds -/

theorem valuesFor_map {key : Slot → Datum} (hkey : ∀ j, Slot.ofDatum (key j) = .ok j)
    (value : Slot → Int) (i : Slot) (slots : List Slot) :
    valuesFor i (slots.map fun j => (key j, .whole (value j))) =
      (slots.filter (· = i)).map value := by
  induction slots with
  | nil => rfl
  | cons j slots ih =>
    rw [List.map_cons, valuesFor_cons (hkey j) rfl, ih, List.filter_cons]
    by_cases hj : j = i <;> simp [hj]

/-- A state is made by the pairs of all its slots, whatever they are called. -/
theorem placeAll_all {key : Slot → Datum} (hkey : ∀ j, Slot.ofDatum (key j) = .ok j) (s t : State) :
    placeAll t (Slot.all.map fun j => (key j, .whole (s.get j))) = .ok s := by
  have hall : ∀ i : Slot, Slot.all.filter (· = i) = [i] := by decide
  obtain ⟨u, hu⟩ : ∃ u, placeAll t (Slot.all.map fun j => (key j, .whole (s.get j))) = .ok u := by
    refine exists_placeAll t fun entry hentry => ?_
    obtain ⟨j, -, rfl⟩ := List.mem_map.mp hentry
    exact ⟨j, s.get j, hkey j, rfl⟩
  rw [hu]
  refine congrArg Except.ok (State.ext_get fun i => ?_)
  rw [get_of_placeAll hu, valuesFor_map hkey, hall]
  rfl

end Seed

theorem State.toList_eq_map (s : State) : s.toList = Slot.all.map s.get := by
  apply List.ext_getElem
  · simp [toList, Slot.all]
  · intro i hi hi'
    have hlt : i < 23 := by simpa [Slot.all] using hi'
    by_cases h : i < 22
    · simp [toList, Slot.all, get, h]
    · obtain rfl : i = 22 := by omega
      simp [toList, Slot.all]
      rfl

/-- A state is the first state of its named numbers. -/
theorem State.state_named (s : State) : (Seed.ofNames s.named).state = .ok s := by
  have hentries : (Seed.ofNames s.named).entries =
      Slot.all.map fun i => (.text i.name, .whole (s.get i)) := by
    show s.named.map _ = _
    rw [named, toList_eq_map, List.zip_map', List.map_map]
    rfl
  show Seed.placeAll zero (Seed.ofNames s.named).entries = .ok s
  rw [hentries]
  have hkey : ∀ i : Slot, Slot.ofDatum (.text i.name) = .ok i := Slot.ofText_name
  exact Seed.placeAll_all hkey s zero

/-- A state is the first state of its numbers in order. -/
theorem State.state_toList (s : State) : (Seed.values (s.toList.map .whole)).state = .ok s := by
  have hentries : (Seed.values (s.toList.map .whole)).entries =
      Slot.all.map fun i => (.whole i.val, .whole (s.get i)) := by
    rw [toList_eq_map]
    apply List.ext_getElem
    · simp [Seed.entries, Seed.numbered]
    · intro i hi hi'
      simp [Seed.entries, Seed.numbered, Slot.all]
  rw [Seed.state_values, if_neg (by simp [toList]), hentries]
  exact Seed.placeAll_all Slot.ofDatum_whole s zero

namespace Workspace

section

variable (w : Workspace) {v v' : Seed}

theorem perform_seed_of_state {t : State} (h : v.state = .ok t) (hv : v ≠ .none) :
    w.perform (.seed v) = ({ w with state := v.laidOver w.state }, .ok .nothing) :=
  perform_seed_of_ok (Seed.overlay_of_state h hv w.state)

theorem perform_seed_of_state_error {f : Fault} (h : v.state = .error f) :
    w.perform (.seed v) = (w, .error f) :=
  perform_seed_of_error (Seed.overlay_of_state_error h w.state)

/-- A seed counts for its first state and its pairs only. -/
theorem perform_seed_congr (hv : v ≠ .none) (hv' : v' ≠ .none) (hstate : v.state = v'.state)
    (hentries : v.entries = v'.entries) : w.perform (.seed v) = w.perform (.seed v') := by
  cases h : v.state with
  | error f =>
    rw [w.perform_seed_of_state_error h, w.perform_seed_of_state_error (hstate.symm.trans h)]
  | ok t =>
    have hlaid : v.laidOver w.state = v'.laidOver w.state := by
      unfold Seed.laidOver
      rw [hentries]
    rw [w.perform_seed_of_state h hv, w.perform_seed_of_state (hstate.symm.trans h) hv', hlaid]

/-- A seed is refused by all workspaces, or laid over any of them. -/
theorem perform_seed_cases (v : Seed) :
    (∃ f, ∀ w : Workspace, w.perform (.seed v) = (w, .error f)) ∨
      ∀ w : Workspace,
        w.perform (.seed v) = ({ w with state := v.laidOver w.state }, .ok .nothing) := by
  by_cases hv : v = .none
  · subst hv
    exact .inl ⟨_, fun w => perform_seed_of_error rfl⟩
  · cases h : v.state with
    | ok t => exact .inr fun w => w.perform_seed_of_state h hv
    | error f => exact .inl ⟨f, fun w => w.perform_seed_of_state_error h⟩

theorem afterCalls_pair (call call' : Call) :
    w.afterCalls [call, call'] = ((w.perform call).1.perform call').1 := rfl

theorem afterCalls_seed_seed (v : Seed) :
    w.afterCalls [.seed v, .seed v] = w.afterCalls [.seed v] := by
  have hone : w.afterCalls [.seed v] = (w.perform (.seed v)).1 := rfl
  rw [hone, afterCalls_pair]
  rcases perform_seed_cases v with ⟨f, hrefused⟩ | hdone
  · rw [hrefused]
  · simp only [hdone, Seed.laidOver_laidOver_self]

theorem afterCalls_seed_comm (h : ∀ i, ¬ (v.Names i ∧ v'.Names i)) :
    w.afterCalls [.seed v, .seed v'] = w.afterCalls [.seed v', .seed v] := by
  rw [afterCalls_pair, afterCalls_pair]
  rcases perform_seed_cases v with ⟨f, hrefused⟩ | hdone
  · rw [hrefused, hrefused]
  · rcases perform_seed_cases v' with ⟨f, hrefused'⟩ | hdone'
    · rw [hrefused', hrefused']
    · simp only [hdone, hdone', Seed.laidOver_comm h]

end

/-- The workspace that a seed starts with is one of zeros with the seed laid over. -/
theorem ofSeed_eq {v : Seed} (hv : v ≠ .none) (limit : Datum) :
    let z : Workspace := ⟨State.zero, limit, #[]⟩
    ofSeed v limit = (z.perform (.seed v)).2.map fun _ => (z.perform (.seed v)).1 := by
  intro z
  unfold ofSeed
  cases h : v.state with
  | error f =>
    rw [z.perform_seed_of_state_error h]
    rfl
  | ok t =>
    rw [z.perform_seed_of_state h hv, Seed.eq_laidOver_of_state h]
    rfl

/-- A list and the table of its places are laid over a workspace alike. -/
theorem perform_seed_values_named (w : Workspace) (ds : List Datum) :
    let listed := w.perform (.seed (.values ds))
    let named := w.perform (.seed (.named (Seed.numbered ds)))
    listed.1 = named.1 ∧ listed.2.toOption = named.2.toOption ∧
      (ds.length ≤ 23 → listed = named) := by
  intro listed named
  by_cases hlength : ds.length ≤ 23
  · have hsame : listed = named :=
      w.perform_seed_congr (fun h => by cases h) (fun h => by cases h)
        (Seed.state_values_of_le hlength) rfl
    rw [hsame]
    exact ⟨rfl, rfl, fun _ => rfl⟩
  -- the list is refused for its length, and the table for a place that is no slot
  · obtain ⟨⟨f, hf⟩, f', hf'⟩ := Seed.exists_error_of_long (Nat.lt_of_not_le hlength)
    have hlisted : listed = (w, .error f) := w.perform_seed_of_state_error hf
    have hnamed : named = (w, .error f') := w.perform_seed_of_state_error hf'
    rw [hlisted, hnamed]
    exact ⟨rfl, rfl, fun hle => absurd hle hlength⟩

/-- A seed that is given is refused where it makes no first state, for the same fault, and changes
nothing then.  Otherwise the slots that its keys name get their numbers from the first state, and
the other slots keep theirs.  So a new workspace is one of zeros with the seed laid over, a second
time changes nothing, seeds that name no slot together can change places, a list seeds as the table
of its places, and a state is the first state of its named numbers and of its numbers in order. -/
theorem perform_seed_overlays (w : Workspace) {v : Seed} (hv : v ≠ .none) :
    (w.perform (.seed v)).2 = v.state.map (fun _ => .nothing) ∧
      (∀ f, v.state = .error f → (w.perform (.seed v)).1 = w) ∧
      (∀ t, v.state = .ok t → ∃ s, (w.perform (.seed v)).1 = { w with state := s } ∧
        ∀ i, (v.Names i → s.get i = t.get i) ∧ (¬ v.Names i → s.get i = w.state.get i)) ∧
      (∀ limit, let z : Workspace := ⟨State.zero, limit, #[]⟩
        ofSeed .none limit = .ok z ∧
          ofSeed v limit = (z.perform (.seed v)).2.map fun _ => (z.perform (.seed v)).1) ∧
      w.afterCalls [.seed v, .seed v] = w.afterCalls [.seed v] ∧
      (∀ v', (∀ i, ¬ (v.Names i ∧ v'.Names i)) →
        w.afterCalls [.seed v, .seed v'] = w.afterCalls [.seed v', .seed v]) ∧
      (∀ ds, (∀ i, (Seed.values ds).Names i ↔ i.val < ds.length) ∧
        let listed := w.perform (.seed (.values ds))
        let named := w.perform (.seed (.named (Seed.numbered ds)))
        listed.1 = named.1 ∧ listed.2.toOption = named.2.toOption ∧
          (ds.length ≤ 23 → listed = named)) ∧
      ∀ s : State, (Seed.ofNames s.named).state = .ok s ∧
        (Seed.values (s.toList.map .whole)).state = .ok s := by
  refine ⟨?_, fun f hf => ?_, fun t ht => ⟨v.laidOver w.state, ?_, fun i => ⟨?_, ?_⟩⟩,
    fun limit => ⟨rfl, ofSeed_eq hv limit⟩, w.afterCalls_seed_seed v,
    fun v' => w.afterCalls_seed_comm,
    fun ds => ⟨fun i => Seed.names_values_iff, w.perform_seed_values_named ds⟩,
    fun s => ⟨s.state_named, s.state_toList⟩⟩
  · cases h : v.state with
    | error f =>
      rw [w.perform_seed_of_state_error h]
      rfl
    | ok t =>
      rw [w.perform_seed_of_state h hv]
      rfl
  · rw [w.perform_seed_of_state_error hf]
  · rw [w.perform_seed_of_state ht hv]
  · exact fun hi => Seed.get_laidOver_of_names ht hi w.state
  · exact fun hi => Seed.get_laidOver_of_not_names hi w.state

/-- A slot that goes by two names gets the number of the second one, a slot by its number in digits
gets it too, and a slot in between keeps its own; a list for that slot can go before or behind. -/
theorem perform_seed_overlays_aliases :
    let v : Seed :=
      .named [(.text "ב", .whole 1), (.text " bet ", .whole 2), (.text "22", .whole 9)]
    let v' : Seed := .values [.whole 4]
    let w : Workspace := ⟨State.ofSlots fun _ => 7, .whole 1, #[]⟩
    (v ≠ .none ∧ v.Names 1 ∧ ¬ v.Names 0 ∧ (∃ t, v.state = .ok t) ∧
        ∀ i, ¬ (v.Names i ∧ v'.Names i)) ∧
      (w.perform (.seed v)).1.state.get 1 = 2 ∧ (w.perform (.seed v)).1.state.get 0 = 7 ∧
      w.afterCalls [.seed v, .seed v'] = w.afterCalls [.seed v', .seed v] := by
  intro v v' w
  have hv : v ≠ .none := by simp [v]
  have hletter : Slot.ofDatum (.text "ב") = .ok 1 := rfl
  have hbet : Slot.ofDatum (.text " bet ") = .ok 1 := Seed.isNameOf_iff.mp (by decide +kernel)
  have hacc : Slot.ofDatum (.text "22") = .ok 22 := Seed.isNameOf_iff.mp (by decide +kernel)
  have hnames : v.Names 1 := ⟨_, List.mem_cons_self, hletter⟩
  have hzero : ¬ v.Names 0 := by
    rintro ⟨entry, hentry, hkey⟩
    simp only [v, Seed.entries, List.mem_cons, List.not_mem_nil, or_false] at hentry
    rcases hentry with rfl | rfl | rfl
    · cases hletter.symm.trans hkey
    · cases hbet.symm.trans hkey
    · cases hacc.symm.trans hkey
  have hdisjoint : ∀ i, ¬ (v.Names i ∧ v'.Names i) := by
    rintro i ⟨hi, entry, hentry, hkey⟩
    obtain rfl := List.mem_singleton.mp hentry
    obtain rfl : (0 : Slot) = i := Except.ok.inj hkey
    exact hzero hi
  let t : State := ((State.zero.set 1 1).set 1 2).set 22 9
  have ht : v.state = .ok t :=
    (Seed.placeAll_cons _ hletter rfl _).trans
      ((Seed.placeAll_cons _ hbet rfl _).trans (Seed.placeAll_cons _ hacc rfl []))
  obtain ⟨-, -, hover, -, -, hcomm, -⟩ := w.perform_seed_overlays hv
  obtain ⟨s, hs, hslots⟩ := hover t ht
  rw [hs]
  exact ⟨⟨hv, hnames, hzero, ⟨t, ht⟩, hdisjoint⟩, ((hslots 1).1 hnames).trans (by decide),
    (hslots 0).2 hzero, hcomm v' hdisjoint⟩

end Workspace

end LetterMachine
