import QueryShaping.QueryId

/-!
The texts of ids read back. Main statement: an id is read from its digits, be they written without a
break or with hyphens (`ofText?_text`, `ofText?_hyphenated`).
-/

namespace QueryShaping

namespace Hex

theorem value?_digit (n : Nat) : value? (digit n) = some (n % 16) := by
  have hd : ∀ m < 16, value? (Nat.digitChar m) = some m := by decide
  exact hd (n % 16) (Nat.mod_lt n (by decide))

theorem length_digits (count n : Nat) : (digits count n).length = count := by
  induction count generalizing n with
  | zero => rfl
  | succ count ih => rw [digits, List.length_append, ih, List.length_singleton]

/-- Reading digits on from what stands before them gives the whole number. -/
theorem foldlM_digits (count n : Nat) :
    (digits count n).foldlM (fun n c => (value? c).map (16 * n + ·)) (n >>> (4 * count)) =
      some n := by
  induction count generalizing n with
  | zero => rfl
  | succ count ih =>
    -- All digits but the last are those of `n / 16`, and the same stands before them.
    have hd : n >>> 4 = n / 16 := Nat.shiftRight_eq_div_pow n 4
    have hs : n >>> (4 * (count + 1)) = (n / 16) >>> (4 * count) := by
      rw [Nat.mul_succ, Nat.add_comm, Nat.shiftRight_add, hd]
    have hn : 16 * (n / 16) + n % 16 = n := Nat.div_add_mod n 16
    rw [digits, List.foldlM_append, hs, ih]
    simp [value?_digit, hn]

theorem number?_digits {count n : Nat} (h : n >>> (4 * count) = 0) :
    number? (digits count n) = some n := by
  have hf := foldlM_digits count n
  rwa [h] at hf

end Hex

namespace QueryId

/-- The number of digits in groups of the given lengths. -/
def width : List Nat → Nat
  | [] => 0
  | n :: rest => n + width rest

theorem hyphenate_cons (n m : Nat) (rest : List Nat) (text : List Char) :
    hyphenate (n :: m :: rest) text =
      text.take n ++ '-' :: hyphenate (m :: rest) (text.drop n) := rfl

theorem unhyphenate?_cons {n : Nat} {before : List Char} (h : before.length = n) (m : Nat)
    (rest : List Nat) (after : List Char) :
    unhyphenate? (n :: m :: rest) (before ++ '-' :: after) =
      (unhyphenate? (m :: rest) after).map (before ++ ·) := by
  simp only [unhyphenate?, List.drop_left' h, List.take_left' h]

theorem length_take_drop {n : Nat} {rest : List Nat} {text : List Char}
    (h : text.length = width (n :: rest)) :
    (text.take n).length = n ∧ (text.drop n).length = width rest := by
  rw [width] at h
  rw [List.length_take, List.length_drop]
  omega

theorem length_hyphenate : ∀ {groups : List Nat} {text : List Char}, text.length = width groups →
    (hyphenate groups text).length = text.length + (groups.length - 1)
  | [], _, _ | [_], _, _ => rfl
  | n :: m :: rest, text, h => by
    obtain ⟨ht, hd⟩ := length_take_drop h
    rw [hyphenate_cons, List.length_append, List.length_cons, length_hyphenate hd, ht, hd, h]
    simp only [List.length_cons, width]
    omega

theorem unhyphenate?_hyphenate : ∀ {groups : List Nat} {text : List Char},
    text.length = width groups → unhyphenate? groups (hyphenate groups text) = some text
  | [], text, h => by
    rw [List.length_eq_zero_iff.mp h]
    rfl
  | [_], _, h => if_pos (h.trans (Nat.add_zero _))
  | n :: m :: rest, text, h => by
    obtain ⟨ht, hd⟩ := length_take_drop h
    rw [hyphenate_cons, unhyphenate?_cons ht, unhyphenate?_hyphenate hd, Option.map_some,
      List.take_append_drop]

variable (id : QueryId)

theorem length_digits : id.digits.length = 32 := Hex.length_digits 32 _

theorem number?_digits : Hex.number? id.digits = some id.number.toNat := by
  refine Hex.number?_digits ?_
  have hs : (id.number >>> 128).toNat = 0 := by rw [BitVec.ushiftRight_eq_zero (Nat.le_refl _)]; rfl
  rwa [BitVec.toNat_ushiftRight] at hs

theorem ofText?_of_digits? {text : String} (h : digits? text.toList = some id.digits) :
    ofText? text = some id := by
  simp only [ofText?, h, number?_digits, Option.bind_eq_bind, Option.bind_some, BitVec.ofNat_toNat,
    BitVec.setWidth_eq]
  rfl

theorem ofText?_text : ofText? id.text = some id := by
  apply ofText?_of_digits?
  rw [text, String.toList_ofList, digits?, if_pos id.length_digits]

theorem ofText?_hyphenated : ofText? id.hyphenated = some id := by
  have hs : id.digits.length = width groups := id.length_digits
  have hl : (hyphenate groups id.digits).length = 36 := by
    rw [length_hyphenate hs, length_digits]
    rfl
  apply ofText?_of_digits?
  rw [hyphenated, String.toList_ofList, digits?, if_neg (by rw [hl]; decide), if_pos hl,
    unhyphenate?_hyphenate hs]

end QueryId

end QueryShaping
