import LetterMachine.Text.Utf8

/-!
# Bytes of a text

A text that is written in UTF-8 is read back as it was.  The first byte of a character announces how
many bytes it has and bounds the second, and the bytes behind it carry six bits each.
-/

namespace LetterMachine.Text

/-! ## Single bytes -/

theorem announced_eq (b : UInt8) :
    announced b =
      if b.toNat < 0x80 then some 1 else if b.toNat < 0xc2 then none
      else if b.toNat < 0xe0 then some 2 else if b.toNat < 0xf0 then some 3
      else if b.toNat < 0xf5 then some 4 else none := by
  simp [announced, UInt8.lt_iff_toNat_lt]

theorem leadBits_eq (b : UInt8) :
    leadBits b =
      if b.toNat < 0x80 then b.toNat else if b.toNat < 0xe0 then b.toNat % 0x20
      else if b.toNat < 0xf0 then b.toNat % 0x10 else b.toNat % 0x08 := by
  simp [leadBits, UInt8.lt_iff_toNat_lt]

theorem continues_iff (b : UInt8) : continues b ↔ 0x80 ≤ b.toNat ∧ b.toNat ≤ 0xbf := by
  simp [continues, UInt8.le_iff_toNat_le]

/-- The second byte is within the bounds that the first sets. -/
def Follows (first second : UInt8) : Prop :=
  (secondBounds first).1 ≤ second ∧ second ≤ (secondBounds first).2

theorem follows_iff (first second : UInt8) :
    Follows first second ↔
      (0x80 ≤ second.toNat ∧ second.toNat ≤ 0xbf) ∧
        (first.toNat = 0xe0 → 0xa0 ≤ second.toNat) ∧ (first.toNat = 0xed → second.toNat ≤ 0x9f) ∧
        (first.toNat = 0xf0 → 0x90 ≤ second.toNat) ∧ (first.toNat = 0xf4 → second.toNat ≤ 0x8f) := by
  unfold Follows secondBounds
  simp only [UInt8.le_iff_toNat_le, beq_iff_eq, ← UInt8.toNat_inj, UInt8.reduceToNat]
  by_cases he0 : first.toNat = 0xe0
  · simp [he0]
    omega
  by_cases hed : first.toNat = 0xed
  · simp [hed]
    omega
  by_cases hf0 : first.toNat = 0xf0
  · simp [hf0]
    omega
  by_cases hf4 : first.toNat = 0xf4
  · simp [hf4]
    omega
  simp [he0, hed, hf0, hf4]

/-! ## One character -/

/-- The bytes that may stand behind the first. -/
def Fits (first : UInt8) : List UInt8 → Prop
  | [] => True
  | second :: more => Follows first second ∧ ∀ b ∈ more, continues b

/-- A byte with its index fits behind the first byte. -/
def fitsAt (first : UInt8) (pair : Nat × UInt8) : Bool :=
  if pair.1 == 0 then (secondBounds first).1 ≤ pair.2 && pair.2 ≤ (secondBounds first).2
  else continues pair.2

theorem fitsAt_of_fits {first : UInt8} {behind : List UInt8} (h : Fits first behind) :
    ∀ pair ∈ (List.range behind.length).zip behind, fitsAt first pair := by
  cases behind with
  | nil => simp
  | cons second more =>
    rw [List.length_cons, List.range_succ_eq_map, List.zip_cons_cons, List.forall_mem_cons]
    refine ⟨by simpa [fitsAt, Follows] using h.1, fun pair hpair => ?_⟩
    have hmem := List.of_mem_zip hpair
    -- every byte but the second has a later index
    have hindex : pair.1 ≠ 0 := by
      intro hzero
      simp [hzero] at hmem
    simpa [fitsAt, hindex] using h.2 pair.2 hmem.2

theorem readChar_of_fits {first : UInt8} {behind : List UInt8}
    (hfirst : announced first = some (behind.length + 1)) (hfits : Fits first behind)
    (rest : List UInt8) :
    readChar first (behind ++ rest) =
      .char (Char.ofNat (behind.foldl (fun acc b => acc * 64 + b.toNat % 64) (leadBits first)))
        (behind.length + 1) := by
  let pairs := (List.range behind.length).zip behind
  -- all that is announced fits, so the longest good stretch is all of it
  have hgood : pairs.takeWhile (fitsAt first) = pairs := by
    have htake : (pairs ++ []).takeWhile (fitsAt first) = _ :=
      List.takeWhile_append_of_pos (fitsAt_of_fits hfits)
    simpa using htake
  have hlength : pairs.length = behind.length := by simp [pairs]
  have hfold (acc : Nat) : pairs.foldl (fun acc pair => acc * 64 + pair.2.toNat % 64) acc =
      behind.foldl (fun acc b => acc * 64 + b.toNat % 64) acc := by
    have hsnd : pairs.map Prod.snd = behind := List.map_snd_zip (by simp)
    calc
      _ = (pairs.map Prod.snd).foldl (fun acc b => acc * 64 + b.toNat % 64) acc := by
        rw [List.foldl_map]
      _ = _ := by rw [hsnd]
  unfold readChar
  rw [hfirst]
  dsimp only
  rw [Nat.add_sub_cancel, List.take_left]
  show (if (pairs.takeWhile (fitsAt first)).length == behind.length then
    Utf8Step.char (Char.ofNat ((pairs.takeWhile (fitsAt first)).foldl
      (fun acc pair => acc * 64 + pair.2.toNat % 64) (leadBits first))) (behind.length + 1)
    else _) = _
  rw [hgood, hlength, if_pos (by simp), hfold]

/-! ## The four lengths -/

theorem toNat_ofNat_trail (m : Nat) : (UInt8.ofNat (m % 64 + 0x80)).toNat = m % 64 + 0x80 := by
  simp
  omega

theorem continues_trail (m : Nat) : continues (.ofNat (m % 64 + 0x80)) := by
  rw [continues_iff, toNat_ofNat_trail]
  omega

section

variable {v : Nat} (rest : List UInt8)

theorem readChar_one (h : v < 0x80) : readChar (.ofNat v) ([] ++ rest) = .char (Char.ofNat v) 1 := by
  have hfirst : (UInt8.ofNat v).toNat = v := by simp; omega
  have hannounced : announced (.ofNat v) = some 1 := by
    rw [announced_eq, hfirst, if_pos h]
  have hfits : Fits (.ofNat v) [] := trivial
  rw [readChar_of_fits hannounced hfits, List.foldl_nil, leadBits_eq, hfirst, if_pos h]
  rfl

theorem readChar_two (h : 0x80 ≤ v) (hv : v < 0x800) :
    readChar (.ofNat (v / 64 % 32 + 0xc0)) ([.ofNat (v % 64 + 0x80)] ++ rest) =
      .char (Char.ofNat v) 2 := by
  have hfirst : (UInt8.ofNat (v / 64 % 32 + 0xc0)).toNat = v / 64 + 0xc0 := by simp; omega
  have hannounced : announced (.ofNat (v / 64 % 32 + 0xc0)) = some 2 := by
    rw [announced_eq, hfirst, if_neg (by omega), if_neg (by omega), if_pos (by omega)]
  have hfits : Fits (.ofNat (v / 64 % 32 + 0xc0)) [.ofNat (v % 64 + 0x80)] := by
    simp [Fits, follows_iff]
    omega
  have hvalue : (v / 64 + 0xc0) % 0x20 * 64 + (v % 64 + 0x80) % 64 = v := by omega
  rw [readChar_of_fits hannounced hfits, leadBits_eq, hfirst, if_neg (by omega), if_pos (by omega)]
  simp only [List.foldl_cons, List.foldl_nil, toNat_ofNat_trail, hvalue]
  rfl

/-- The second byte keeps out overlong forms and surrogates. -/
theorem readChar_three (h : 0x800 ≤ v) (hv : v < 0x10000) (hsurrogate : v < 0xd800 ∨ 0xdfff < v) :
    readChar (.ofNat (v / 4096 % 16 + 0xe0))
        ([.ofNat (v / 64 % 64 + 0x80), .ofNat (v % 64 + 0x80)] ++ rest) =
      .char (Char.ofNat v) 3 := by
  have hfirst : (UInt8.ofNat (v / 4096 % 16 + 0xe0)).toNat = v / 4096 + 0xe0 := by simp; omega
  have hannounced : announced (.ofNat (v / 4096 % 16 + 0xe0)) = some 3 := by
    rw [announced_eq, hfirst, if_neg (by omega), if_neg (by omega), if_neg (by omega),
      if_pos (by omega)]
  have hfits : Fits (.ofNat (v / 4096 % 16 + 0xe0))
      [.ofNat (v / 64 % 64 + 0x80), .ofNat (v % 64 + 0x80)] := by
    refine ⟨?_, List.forall_mem_singleton.mpr (continues_trail v)⟩
    rw [follows_iff, hfirst, toNat_ofNat_trail]
    omega
  have hvalue : ((v / 4096 + 0xe0) % 0x10 * 64 + (v / 64 % 64 + 0x80) % 64) * 64 +
      (v % 64 + 0x80) % 64 = v := by omega
  rw [readChar_of_fits hannounced hfits, leadBits_eq, hfirst, if_neg (by omega), if_neg (by omega),
    if_pos (by omega)]
  simp only [List.foldl_cons, List.foldl_nil, toNat_ofNat_trail, hvalue]
  rfl

/-- The second byte keeps out overlong forms and what lies above the last code point. -/
theorem readChar_four (h : 0x10000 ≤ v) (hv : v < 0x110000) :
    readChar (.ofNat (v / 262144 % 8 + 0xf0))
        ([.ofNat (v / 4096 % 64 + 0x80), .ofNat (v / 64 % 64 + 0x80), .ofNat (v % 64 + 0x80)] ++ rest) =
      .char (Char.ofNat v) 4 := by
  have hfirst : (UInt8.ofNat (v / 262144 % 8 + 0xf0)).toNat = v / 262144 + 0xf0 := by simp; omega
  have hannounced : announced (.ofNat (v / 262144 % 8 + 0xf0)) = some 4 := by
    rw [announced_eq, hfirst, if_neg (by omega), if_neg (by omega), if_neg (by omega),
      if_neg (by omega), if_pos (by omega)]
  have hfits : Fits (.ofNat (v / 262144 % 8 + 0xf0))
      [.ofNat (v / 4096 % 64 + 0x80), .ofNat (v / 64 % 64 + 0x80), .ofNat (v % 64 + 0x80)] := by
    have hmore : ∀ b ∈ [UInt8.ofNat (v / 64 % 64 + 0x80), .ofNat (v % 64 + 0x80)], continues b := by
      rw [List.forall_mem_cons, List.forall_mem_singleton]
      exact ⟨continues_trail (v / 64), continues_trail v⟩
    refine ⟨?_, hmore⟩
    rw [follows_iff, hfirst, toNat_ofNat_trail]
    omega
  have hvalue : (((v / 262144 + 0xf0) % 0x08 * 64 + (v / 4096 % 64 + 0x80) % 64) * 64 +
      (v / 64 % 64 + 0x80) % 64) * 64 + (v % 64 + 0x80) % 64 = v := by omega
  rw [readChar_of_fits hannounced hfits, leadBits_eq, hfirst, if_neg (by omega), if_neg (by omega),
    if_neg (by omega)]
  simp only [List.foldl_cons, List.foldl_nil, toNat_ofNat_trail, hvalue]
  rfl

end

/-! ## Texts -/

theorem readChar_utf8EncodeChar (c : Char) (rest : List UInt8) :
    ∃ first behind, String.utf8EncodeChar c = first :: behind ∧
      readChar first (behind ++ rest) = .char c (behind.length + 1) := by
  have hvalid : c.val.toNat < 0xd800 ∨ 0xdfff < c.val.toNat ∧ c.val.toNat < 0x110000 := c.valid
  have hc (n : Nat) : Utf8Step.char (Char.ofNat c.val.toNat) n = .char c n :=
    congrArg (Utf8Step.char · n) c.ofNat_toNat
  unfold String.utf8EncodeChar
  dsimp only
  split
  · exact ⟨_, _, rfl, (readChar_one rest (by omega)).trans (hc 1)⟩
  split
  · exact ⟨_, _, rfl, (readChar_two rest (by omega) (by omega)).trans (hc 2)⟩
  split
  · exact ⟨_, _, rfl, (readChar_three rest (by omega) (by omega) (by omega)).trans (hc 3)⟩
  · exact ⟨_, _, rfl, (readChar_four rest (by omega) (by omega)).trans (hc 4)⟩

theorem decodeFrom_skip (offset : Nat) (skipped rest : List UInt8) :
    decodeFrom offset skipped.length (skipped ++ rest) =
      decodeFrom (offset + skipped.length) 0 rest := by
  induction skipped generalizing offset with
  | nil => rfl
  | cons b skipped ih =>
    rw [List.length_cons, List.cons_append, decodeFrom, ih, Nat.add_assoc, Nat.add_comm 1]

theorem decodeFrom_utf8EncodeChar (offset : Nat) (cs : List Char) :
    decodeFrom offset 0 (cs.flatMap String.utf8EncodeChar) = .ok cs := by
  induction cs generalizing offset with
  | nil => rfl
  | cons c cs ih =>
    obtain ⟨first, behind, hc, hread⟩ :=
      readChar_utf8EncodeChar c (cs.flatMap String.utf8EncodeChar)
    rw [List.flatMap_cons, hc, List.cons_append, decodeFrom, hread]
    dsimp only
    -- the bytes behind the first belong to the character that has been read
    rw [Nat.add_sub_cancel, decodeFrom_skip, ih]
    rfl

theorem toList_toUTF8 (s : String) :
    s.toUTF8.data.toList = s.toList.flatMap String.utf8EncodeChar := by
  rw [String.toUTF8_eq_toByteArray, ← String.ofList_toList (s := s), String.toByteArray_ofList,
    String.toList_ofList]
  simp [List.utf8Encode]

/-- A text that is written in UTF-8 is read back. -/
theorem decode_toUTF8 (s : String) : decode s.toUTF8.data.toList = .ok s.toList := by
  rw [toList_toUTF8]
  exact decodeFrom_utf8EncodeChar 0 s.toList

end LetterMachine.Text
