import LetterMachine.Proofs.Session
import Mathlib.Data.List.Induction

/-!
# Seeds of named pairs

Pairs of names and values are first gathered in a table by name, and then placed by slot.  Where a
slot goes by several names, the table decides: the name that was first used last prevails, with the
value that it was last given.
-/

namespace LetterMachine

open LetterMachine.Text

/-! ## Tables of pairs -/

namespace Table

section

variable {α β : Type} [BEq α]

/-- The values that pairs give to a key, in order. -/
def valuesOf (key : α) (pairs : List (α × β)) : List β :=
  (pairs.filter fun pair => pair.1 == key).map Prod.snd

theorem valuesOf_append (key : α) (pairs pairs' : List (α × β)) :
    valuesOf key (pairs ++ pairs') = valuesOf key pairs ++ valuesOf key pairs' := by
  unfold valuesOf
  rw [List.filter_append, List.map_append]

theorem valuesOf_concat (key : α) (pairs : List (α × β)) (key' : α) (value : β) :
    valuesOf key (pairs ++ [(key', value)]) =
      if key' == key then valuesOf key pairs ++ [value] else valuesOf key pairs := by
  rw [valuesOf_append]
  unfold valuesOf
  by_cases h : key' == key
  · have hlast : [(key', value)].filter (fun pair => pair.1 == key) = [(key', value)] :=
      List.filter_cons_of_pos h
    rw [if_pos h, hlast]
    rfl
  · have hnone : [(key', value)].filter (fun pair => pair.1 == key) = [] :=
      List.filter_cons_of_neg h
    rw [if_neg h, hnone]
    exact List.append_nil _

theorem ofPairs_concat (pairs : List (α × β)) (key : α) (value : β) :
    ofPairs (· == ·) (pairs ++ [(key, value)]) =
      put (· == ·) (ofPairs (· == ·) pairs) key value :=
  List.foldl_concat ..

variable [LawfulBEq α]

theorem any_key_iff {table : List (α × β)} {key : α} :
    (table.any fun entry => entry.1 == key) ↔ key ∈ table.map Prod.fst := by
  simp

theorem map_fst_put (table : List (α × β)) (key : α) (value : β) :
    (put (· == ·) table key value).map Prod.fst =
      if (table.map Prod.fst).contains key then table.map Prod.fst
      else table.map Prod.fst ++ [key] := by
  by_cases h : key ∈ table.map Prod.fst
  · rw [if_pos (List.contains_iff_mem.mpr h), map_fst_put_of_any (any_key_iff.mpr h)]
  · rw [if_neg fun hmem => h (List.contains_iff_mem.mp hmem)]
    unfold put
    rw [if_neg fun hany => h (any_key_iff.mp hany), List.map_append]
    rfl

theorem eraseDups_concat (keys : List α) (key : α) :
    (keys ++ [key]).eraseDups =
      if keys.contains key then keys.eraseDups else keys.eraseDups ++ [key] := by
  rw [List.eraseDups_append]
  by_cases h : keys.contains key
  · have hnone : [key].removeAll keys = [] := List.filter_cons_of_neg (by simpa using h)
    rw [if_pos h, hnone]
    exact List.append_nil _
  · have hall : [key].removeAll keys = [key] := List.filter_cons_of_pos (by simpa using h)
    rw [if_neg h, hall]
    rfl

theorem valuesOf_eq_nil_iff {key : α} {pairs : List (α × β)} :
    valuesOf key pairs = [] ↔ key ∉ pairs.map Prod.fst := by
  unfold valuesOf
  rw [List.map_eq_nil_iff, List.filter_eq_nil_iff, List.mem_map]
  constructor
  · rintro h ⟨pair, hpair, rfl⟩
    exact h pair hpair (beq_self_eq_true pair.1)
  · intro h pair hpair heq
    exact h ⟨pair, hpair, beq_iff_eq.mp heq⟩

/-- The last pair of a key has the value that the key was last given. -/
theorem getLast?_valuesOf_append {before after : List (α × β)} {key : α} {value : β}
    (h : key ∉ after.map Prod.fst) :
    (valuesOf key (before ++ (key, value) :: after)).getLast? = some value := by
  rw [← List.singleton_append, ← List.append_assoc, valuesOf_append, valuesOf_eq_nil_iff.mpr h,
    List.append_nil, valuesOf_concat, if_pos (beq_self_eq_true key), List.getLast?_concat]

/-- The keys of a table stand in the order of their first use. -/
theorem map_fst_ofPairs (pairs : List (α × β)) :
    (ofPairs (· == ·) pairs).map Prod.fst = (pairs.map Prod.fst).eraseDups := by
  induction pairs using List.reverseRecOn with
  | nil => rfl
  | append_singleton pairs pair ih =>
    have hcontains : ((pairs.map Prod.fst).eraseDups.contains pair.1) =
        (pairs.map Prod.fst).contains pair.1 := by
      rw [Bool.eq_iff_iff, List.contains_iff_mem, List.contains_iff_mem, List.mem_eraseDups]
    rw [ofPairs_concat, map_fst_put, ih, List.map_append, hcontains]
    exact (eraseDups_concat _ _).symm

/-- An entry is the one that was put last, or it is an entry of another key. -/
theorem mem_put {table : List (α × β)} {key : α} {value : β} {entry : α × β}
    (h : entry ∈ put (· == ·) table key value) :
    entry = (key, value) ∨ entry ∈ table ∧ entry.1 ≠ key := by
  by_cases hkey : key ∈ table.map Prod.fst
  · unfold put at h
    rw [if_pos (any_key_iff.mpr hkey)] at h
    obtain ⟨old, hold, rfl⟩ := List.mem_map.mp h
    by_cases hsame : old.1 == key
    · rw [if_pos hsame, beq_iff_eq.mp hsame]
      exact .inl rfl
    · rw [if_neg hsame]
      exact .inr ⟨hold, fun heq => hsame (beq_iff_eq.mpr heq)⟩
  · unfold put at h
    rw [if_neg fun hany => hkey (any_key_iff.mp hany)] at h
    rcases List.mem_append.mp h with hold | hnew
    · refine .inr ⟨hold, fun heq => hkey ?_⟩
      exact heq ▸ List.mem_map_of_mem hold
    · exact .inl (List.mem_singleton.mp hnew)

/-- An entry of a table holds the value that its key was last given. -/
theorem getLast?_valuesOf {pairs : List (α × β)} {entry : α × β}
    (h : entry ∈ ofPairs (· == ·) pairs) : (valuesOf entry.1 pairs).getLast? = some entry.2 := by
  induction pairs using List.reverseRecOn generalizing entry with
  | nil => cases h
  | append_singleton pairs pair ih =>
    rw [ofPairs_concat] at h
    rw [valuesOf_concat]
    rcases mem_put h with rfl | ⟨hold, hne⟩
    · rw [if_pos (beq_self_eq_true pair.1), List.getLast?_concat]
    · rw [if_neg fun heq => hne (beq_iff_eq.mp heq).symm]
      exact ih hold

end

end Table

/-! ## The name that prevails -/

namespace Seed

variable {i : Slot} {rs : List (String × Int)}

def isNameOf (i : Slot) (name : String) : Bool := (Slot.ofText name).toOption = some i

theorem isNameOf_iff {name : String} : isNameOf i name ↔ Slot.ofText name = .ok i := by
  unfold isNameOf
  rw [decide_eq_true_iff]
  cases Slot.ofText name with
  | error f => exact iff_of_false (fun h => by cases h) (fun h => by cases h)
  | ok j => exact ⟨fun h => congrArg _ (Option.some.inj h), fun h => congrArg _ h⟩

/-- The names of a slot in pairs, in the order of their first use. -/
def namesOf (i : Slot) (rs : List (String × Int)) : List String :=
  (rs.map Prod.fst).eraseDups.filter (isNameOf i)

/-- What pairs give to a slot: the name of it that was first used last prevails, and gives it the
value that was last given to this name. -/
def prevailing? (i : Slot) (rs : List (String × Int)) : Option Int :=
  (namesOf i rs).getLast?.bind fun name => (Table.valuesOf name rs).getLast?

/-- The values for a slot in a table are those of the entries that name the slot. -/
theorem valuesFor_ofNames (i : Slot) (table : List (String × Int)) :
    valuesFor i (ofNames table).entries =
      (table.filter fun entry => isNameOf i entry.1).map Prod.snd := by
  let value? (entry : String × Int) : Option Int :=
    if (Slot.ofText entry.1).toOption = some i then some entry.2 else .none
  have hvalues : valuesFor i (ofNames table).entries = table.filterMap value? := List.filterMap_map
  rw [hvalues]
  clear hvalues
  induction table with
  | nil => rfl
  | cons entry table ih =>
    rw [List.filter_cons]
    by_cases h : isNameOf i entry.1
    · have hvalue : value? entry = some entry.2 := if_pos (of_decide_eq_true h)
      rw [List.filterMap_cons_some hvalue, ih, if_pos h]
      rfl
    · have hvalue : value? entry = .none := if_neg fun heq => h (decide_eq_true heq)
      rw [List.filterMap_cons_none hvalue, ih, if_neg h]

theorem getLast?_valuesFor (i : Slot) (rs : List (String × Int)) :
    (valuesFor i (ofNames (Table.ofPairs (· == ·) rs)).entries).getLast? = prevailing? i rs := by
  let table := Table.ofPairs (· == ·) rs
  let named := table.filter fun entry => isNameOf i entry.1
  have hnames : named.map Prod.fst = namesOf i rs := by
    unfold namesOf
    rw [← Table.map_fst_ofPairs, List.filter_map]
    rfl
  unfold prevailing?
  rw [valuesFor_ofNames, ← hnames, List.getLast?_map, List.getLast?_map]
  show named.getLast?.map Prod.snd = (named.getLast?.map Prod.fst).bind _
  cases hlast : named.getLast? with
  | none => rfl
  | some entry =>
    have hmem : entry ∈ table := List.mem_of_mem_filter (List.mem_of_getLast? hlast)
    exact (Table.getLast?_valuesOf hmem).symm

theorem mem_namesOf {name : String} :
    name ∈ namesOf i rs ↔ name ∈ rs.map Prod.fst ∧ Slot.ofText name = .ok i := by
  unfold namesOf
  rw [List.mem_filter, List.mem_eraseDups, isNameOf_iff]

/-- A value prevails in a slot iff some pair names the slot. -/
theorem prevailing?_eq_none_iff :
    prevailing? i rs = .none ↔ ∀ r ∈ rs, Slot.ofText r.1 ≠ .ok i := by
  constructor
  · intro h r hr hname
    have hmem : r.1 ∈ namesOf i rs := mem_namesOf.mpr ⟨List.mem_map_of_mem hr, hname⟩
    have hne : namesOf i rs ≠ [] := List.ne_nil_of_mem hmem
    have hused := (mem_namesOf.mp (List.getLast_mem hne)).1
    unfold prevailing? at h
    rw [List.getLast?_eq_some_getLast hne, Option.bind_some, List.getLast?_eq_none_iff,
      Table.valuesOf_eq_nil_iff] at h
    exact h hused
  · intro h
    have hnone : namesOf i rs = [] := by
      rw [List.eq_nil_iff_forall_not_mem]
      intro name hmem
      obtain ⟨hused, hname⟩ := mem_namesOf.mp hmem
      obtain ⟨r, hr, rfl⟩ := List.mem_map.mp hused
      exact h r hr hname
    unfold prevailing?
    rw [hnone]
    rfl

/-- The last pair that names a slot gives it its value, if its name is the one that was first used
last. -/
theorem prevailing?_of_last {before after : List (String × Int)} {name : String} {x : Int}
    (hrs : rs = before ++ (name, x) :: after) (hafter : ∀ r ∈ after, Slot.ofText r.1 ≠ .ok i)
    (hname : (namesOf i rs).getLast? = some name) : prevailing? i rs = some x := by
  have hslot := (mem_namesOf.mp (List.mem_of_getLast? hname)).2
  have hlast : name ∉ after.map Prod.fst := by
    intro hmem
    obtain ⟨r, hr, rfl⟩ := List.mem_map.mp hmem
    exact hafter r hr hslot
  unfold prevailing?
  rw [hname, Option.bind_some, hrs]
  exact Table.getLast?_valuesOf_append hlast

/-! ## Pairs that are read -/

theorem place_of_ok (s : State) {key value : Datum} {x : Int} (hkey : Slot.ofDatum key = .ok i)
    (hvalue : value.whole? = some x) : place s key value = .ok (s.set i x) := by
  unfold place checked
  rw [hvalue, hkey]
  rfl

theorem placeAll_cons (s : State) {key value : Datum} {x : Int} (hkey : Slot.ofDatum key = .ok i)
    (hvalue : value.whole? = some x) (pairs : List (Datum × Datum)) :
    placeAll s ((key, value) :: pairs) = placeAll (s.set i x) pairs := by
  unfold placeAll
  rw [List.foldlM_cons]
  show place s key value >>= _ = _
  rw [place_of_ok s hkey hvalue]
  rfl

theorem exists_placeAll {entries : List (Datum × Datum)} (s : State)
    (h : ∀ entry ∈ entries, ∃ i x, Slot.ofDatum entry.1 = .ok i ∧ entry.2.whole? = some x) :
    ∃ t, placeAll s entries = .ok t := by
  induction entries generalizing s with
  | nil => exact ⟨s, rfl⟩
  | cons entry entries ih =>
    obtain ⟨⟨i, x, hkey, hvalue⟩, hentries⟩ := List.forall_mem_cons.mp h
    obtain ⟨t, ht⟩ := ih (s.set i x) hentries
    exact ⟨t, (placeAll_cons s hkey hvalue entries).trans ht⟩

theorem exists_slot_of_readPair {pair : String} {r : String × Int} (h : readPair pair = .ok r) :
    ∃ i, Slot.ofText r.1 = .ok i := by
  unfold readPair at h
  split at h
  · cases h
  · dsimp only at h
    split at h
    · cases h
    · obtain ⟨i, hi, h⟩ := Answer.bind_eq_ok h
      obtain rfl := Except.ok.inj h
      exact ⟨i, hi⟩

theorem exists_slot_of_mapM {pairs : List String} {rs : List (String × Int)}
    (h : pairs.mapM readPair = .ok rs) : ∀ r ∈ rs, ∃ i, Slot.ofText r.1 = .ok i :=
  Answer.forall_of_mapM (fun _ _ => exists_slot_of_readPair) h

/-- Pairs that are read make a first state. -/
theorem exists_state_ofNames {pairs : List String} {rs : List (String × Int)}
    (h : pairs.mapM readPair = .ok rs) :
    ∃ u, (ofNames (Table.ofPairs (· == ·) rs)).state = .ok u := by
  refine exists_placeAll State.zero fun entry hentry => ?_
  obtain ⟨⟨name, n⟩, hmem, rfl⟩ := List.mem_map.mp hentry
  have hkey : name ∈ (rs.map Prod.fst).eraseDups := by
    rw [← Table.map_fst_ofPairs]
    exact List.mem_map_of_mem hmem
  obtain ⟨r, hr, rfl⟩ := List.mem_map.mp (List.mem_eraseDups.mp hkey)
  obtain ⟨i, hi⟩ := exists_slot_of_mapM h r hr
  exact ⟨i, n, hi, rfl⟩

end Seed

/-! ## The command -/

theorem Command.ofWords_seed {word : String} (h : lowercase word = "seed")
    (args : List String) : Command.ofWords (word :: args) = .ok (.seed args) := by
  unfold Command.ofWords
  simp only [h]

/-- A line that seeds a session lays the seed over its state, even if that cannot be shown. -/
theorem Session.handle_seed (s : Session) {line word : String} {rest : List Char}
    {pairs : List String} {table : List (String × Int)} {u : State}
    (hline : trim line.toList = ':' :: rest)
    (hwords : (words rest).map String.ofList = word :: pairs) (hword : lowercase word = "seed")
    (htable : Seed.readPairs pairs = .ok table) (hu : (Seed.ofNames table).state = .ok u) :
    (s.handle line).1.workspace.state = (Seed.ofNames table).laidOver s.workspace.state := by
  have hcommand : Command.ofWords ((words rest).map String.ofList) = .ok (.seed pairs) := by
    rw [hwords]
    exact Command.ofWords_seed hword pairs
  have hoverlay := Seed.overlay_of_state hu (fun h => by cases h) s.workspace.state
  obtain ⟨hnext, -⟩ := (s.answers_seed htable).carriedOut _ _
    (Workspace.perform_seed_of_ok hoverlay)
  rw [s.handle_command hline hcommand, hnext]
  rfl

namespace Seed

/-- A seed of pairs that are read gives each slot the value that prevails in it, in a new state as
well as over the state of a session.  Slots that no pair names are zero in a new state, and keep
what they hold in a session.  The last pair that names a slot prevails, if its name is the one that
was first used last. -/
theorem readPairs_prevailing {pairs : List String} {table : List (String × Int)}
    (h : readPairs pairs = .ok table) :
    ∃ rs u, pairs.mapM readPair = .ok rs ∧ (ofNames table).state = .ok u ∧
      (∀ i, u.get i = (prevailing? i rs).getD 0) ∧
      (∀ i, prevailing? i rs = .none ↔ ∀ r ∈ rs, Slot.ofText r.1 ≠ .ok i) ∧
      (∀ i before name x after, rs = before ++ (name, x) :: after →
        (∀ r ∈ after, Slot.ofText r.1 ≠ .ok i) → (namesOf i rs).getLast? = some name →
        prevailing? i rs = some x) ∧
      ∀ (s : Session) (line word : String) (rest : List Char), trim line.toList = ':' :: rest →
        (words rest).map String.ofList = word :: pairs → lowercase word = "seed" →
        ∀ i, (s.handle line).1.workspace.state.get i =
          (prevailing? i rs).getD (s.workspace.state.get i) := by
  obtain ⟨rs, hrs, htable⟩ := Answer.bind_eq_ok h
  obtain rfl := Except.ok.inj htable
  obtain ⟨u, hu⟩ := exists_state_ofNames hrs
  refine ⟨rs, u, hrs, hu, ?_, fun i => prevailing?_eq_none_iff, ?_, ?_⟩
  · intro i
    rw [eq_laidOver_of_state hu, get_laidOver, getLast?_valuesFor, State.get_zero]
  · intro i before name x after
    exact prevailing?_of_last
  · intro s line word rest hline hwords hword i
    rw [s.handle_seed hline hwords hword h hu, get_laidOver, getLast?_valuesFor]

/-- A name that is used again behind another name of its slot does not prevail. -/
theorem readPairs_prevailing_alef :
    let pairs := ["א=1", "ALEF=2", "א=3"]
    let table := [("א", (3 : Int)), ("ALEF", 2)]
    let s := Session.new ⟨State.zero, .whole 1, #[]⟩ false
    readPairs pairs = .ok table ∧
      (∃ u, (ofNames table).state = .ok u ∧ u.get 0 = 2) ∧
      (s.handle ":seed א=1 ALEF=2 א=3").1.workspace.state.get 0 = 2 := by
  intro pairs table s
  have htable : readPairs pairs = .ok table := rfl
  obtain ⟨rs, u, hrs, hu, hget, -, -, hsession⟩ := readPairs_prevailing htable
  obtain rfl : [("א", 1), ("ALEF", 2), ("א", 3)] = rs := Except.ok.inj hrs
  have hline : trim (":seed א=1 ALEF=2 א=3").toList = ':' :: "seed א=1 ALEF=2 א=3".toList := by
    decide
  have hwords : (words "seed א=1 ALEF=2 א=3".toList).map String.ofList = "seed" :: pairs := by
    decide +kernel
  have hprevails : prevailing? 0 [("א", 1), ("ALEF", 2), ("א", 3)] = some 2 := by decide +kernel
  refine ⟨htable, ⟨u, hu, ?_⟩, ?_⟩
  · rw [hget, hprevails]
    rfl
  · rw [hsession s _ _ _ hline hwords (by decide +kernel), hprevails]
    rfl

/-- The last pair that names a slot need not give it its value. -/
theorem not_forall_last_pair_prevails :
    ¬ ∀ (pairs : List String) (rs table : List (String × Int)) (u : State),
      pairs.mapM readPair = .ok rs → readPairs pairs = .ok table → (ofNames table).state = .ok u →
      ∀ i before name x after, rs = before ++ (name, x) :: after → Slot.ofText name = .ok i →
        (∀ r ∈ after, Slot.ofText r.1 ≠ .ok i) → u.get i = x := by
  intro h
  have hlast := h ["א=1", "ALEF=2", "א=3"] [("א", 1), ("ALEF", 2), ("א", 3)]
    [("א", 3), ("ALEF", 2)] (State.zero.set 0 2) rfl rfl rfl 0 [("א", 1), ("ALEF", 2)] "א" 3 []
    rfl rfl (fun r hr => by cases hr)
  exact absurd hlast (by decide)

end Seed

end LetterMachine
