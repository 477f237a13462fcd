import LetterMachine.Options

/-!
# How arguments are read

Two simple command lines, and what the current release of the reader promises of all: an option that
takes a value comes with one.
-/

namespace LetterMachine

/-- Does a request have the value that its option takes? -/
def Request.IsFilled : Request → Prop
  | .option c value => c.takesValue → value.isSome
  | .file _ => True

namespace OptionNames

/-! ## One argument and two -/

theorem classify_value (names : OptionNames) {s : String} (h : s.toList.head? ≠ some '-') :
    classify names s = .ok (.value s) := by
  unfold classify
  dsimp only
  rw [if_pos h]

theorem classify_name {names : OptionNames} {name : String} {c : Choice}
    (h : names.lookup name = some c) (hdash : name.toList.head? = some '-') :
    classify names name = .ok (.option c (name.toList.take 2 ≠ ['-', '-']) .nothing) := by
  unfold classify
  dsimp only
  rw [if_neg (fun hne => hne hdash), h]

/-- An option that takes a value, and a value behind it. -/
theorem read_option_value {names : OptionNames} {name s : String} {c : Choice}
    (hname : names.lookup name = some c) (hdash : name.toList.head? = some '-')
    (hdashes : name ≠ "--") (hvalue : c.takesValue = true) (hs : s.toList.head? ≠ some '-')
    (release : Release) :
    names.read release [name, s] = ⟨[.option c (some s)], none, []⟩ := by
  let single : Bool := name.toList.take 2 ≠ ['-', '-']
  have hne : s ≠ "--" := by
    rintro rfl
    exact hs (by decide)
  have hall : classifyAll names [name, s] = .ok [.option c single .nothing, .value s] := by
    unfold classifyAll classifyAll classifyAll
    rw [if_neg hdashes, if_neg hne, classify_name hname hdash, classify_value names hs]
    rfl
  have hasked : asked release names c single .nothing = .needsValue [] c := if_pos hvalue
  have hrest : gather release names true [] = ⟨[], none, []⟩ := by
    unfold gather
    rfl
  unfold read
  rw [hall]
  show gather release names true [(name, .option c single .nothing), (s, .value s)] = _
  unfold gather
  simp only [anyOption, List.any_cons, Bool.true_or, Bool.not_true, Bool.false_eq_true, if_false,
    hasked, hrest]
  rfl

/-- An argument that stands alone is the file. -/
theorem read_value (names : OptionNames) {s : String} (hs : s.toList.head? ≠ some '-')
    (release : Release) : names.read release [s] = ⟨[.file s], none, []⟩ := by
  have hne : s ≠ "--" := by
    rintro rfl
    exact hs (by decide)
  have hall : classifyAll names [s] = .ok [.value s] := by
    unfold classifyAll classifyAll
    rw [if_neg hne, classify_value names hs]
    rfl
  unfold read
  rw [hall]
  show gather release names true [(s, .value s)] = _
  unfold gather
  rfl

/-! ## Values of options -/

/-- The requests that a cluster makes before it waits for a value. -/
def Cluster.requests : Cluster → List Request
  | complete requests _ | needsValue requests _ => requests
  | refused _ => []

theorem Cluster.forall_mem_behind {P : Request → Prop} {r : Request} {cluster : Cluster}
    (hr : P r) (h : ∀ q ∈ cluster.requests, P q) : ∀ q ∈ (cluster.behind r).requests, P q := by
  cases cluster with
  | complete | needsValue => exact List.forall_mem_cons.mpr ⟨hr, h⟩
  | refused => exact h

theorem filled_alone (c : Choice) : ∀ r ∈ (alone c).requests, r.IsFilled := by
  unfold alone
  split
  · exact List.forall_mem_nil _
  · next hvalue => exact List.forall_mem_singleton.mpr fun h => absurd h hvalue

theorem filled_cluster (names : OptionNames) (c : Choice) (single behindEquals : Bool)
    (cs : List Char) :
    ∀ r ∈ (cluster .current names c single behindEquals cs).requests, r.IsFilled := by
  have hignored (c : Choice) (cs : List Char) : ∀ r ∈ (ignored c cs).requests, r.IsFilled :=
    List.forall_mem_nil _
  fun_induction cluster .current names c single behindEquals cs with
  | case1 | case3 => exact List.forall_mem_singleton.mpr fun _ => rfl
  | case2 | case4 | case7 => exact hignored _ _
  | case6 _ _ _ _ _ hvalue => exact List.forall_mem_singleton.mpr fun h => absurd h hvalue
  | case5 c _ _ _ rest hvalue _ next _ ih =>
    refine Cluster.forall_mem_behind (fun h => absurd h hvalue) ?_
    revert ih
    split
    · exact fun _ => filled_alone next
    · exact fun ih => ih.1
    · exact id

theorem filled_asked (names : OptionNames) (c : Choice) (single : Bool) (given : Given) :
    ∀ r ∈ (asked .current names c single given).requests, r.IsFilled := by
  cases given with
  | nothing => exact filled_alone c
  | joined cs => exact filled_cluster names c single false cs
  | equals cs => exact filled_cluster names c single true cs

theorem filled_remaining (fileFree : Bool) (spelt : List String) (arguments : List Argument) :
    ∀ r ∈ (remaining fileFree spelt arguments).requests, r.IsFilled := by
  unfold remaining
  split
  · exact List.forall_mem_nil _
  · split
    · exact List.forall_mem_singleton.mpr trivial
    · exact List.forall_mem_nil _
    · exact List.forall_mem_singleton.mpr trivial
    · exact List.forall_mem_singleton.mpr trivial
    · exact List.forall_mem_nil _

theorem filled_gather (names : OptionNames) (fileFree : Bool)
    (arguments : List (String × Argument)) :
    ∀ r ∈ (gather .current names fileFree arguments).requests, r.IsFilled := by
  have hasked {c : Choice} {single : Bool} {given : Given} {cluster : Cluster}
      (h : asked .current names c single given = cluster) : ∀ r ∈ cluster.requests, r.IsFilled :=
    h ▸ filled_asked names c single given
  fun_induction gather .current names fileFree arguments with
  | case1 | case7 | case10 => exact List.forall_mem_nil _
  | case2 => exact filled_remaining _ _ _
  -- what is not read as an option adds the file, or nothing
  | case3 _ _ _ _ ih | case5 _ _ _ _ _ _ _ ih | case6 _ _ _ _ _ _ ih => exact ih
  | case4 _ _ _ _ ih => exact List.forall_mem_cons.mpr ⟨trivial, ih⟩
  | case8 _ _ _ _ _ _ _ _ hcomplete _ _ ih =>
    exact List.forall_mem_append.mpr ⟨hasked hcomplete, ih⟩
  | case9 _ _ _ _ _ _ _ hwaits _ _ _ _ ih =>
    refine List.forall_mem_append.mpr ⟨?_, ih⟩
    exact List.forall_mem_append.mpr
      ⟨hasked hwaits, List.forall_mem_singleton.mpr fun _ => rfl⟩

/-- In the current release every option that takes a value has one. -/
theorem filled_read (names : OptionNames) (args : List String) :
    ∀ r ∈ (names.read .current args).requests, r.IsFilled := by
  unfold read
  split
  · exact filled_gather names true _
  · exact List.forall_mem_nil _

end OptionNames

end LetterMachine
