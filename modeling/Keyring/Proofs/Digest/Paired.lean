import Keyring.Proofs.Digest.Sha512
import Mathlib.Tactic.Linarith
import Mathlib.Tactic.Ring

/-!
Two runs of SHA-512 side by side, on natural numbers.

The kernel computes with natural numbers of any size at once, but takes an
operation on machine words apart. So two words are kept in one number, with as
much room between them as they take up, where sums and products may overflow until
a mask clears it. One operation on such numbers then is one on the words of both
runs.

All of this serves one inequality, that a phrase has another seed with a line feed
behind it (`Keyring.Mnemonic.seed_zeroLine_ne`). The two seeds take 2048 rounds each,
and the kernel has to compute both.

The definitions are written for evaluation: the words of the schedule and of the
state are arguments of their own, and operations are named instead of written with
symbols, which the kernel would have to look up.
-/

namespace Keyring.Sha512

structure Paired where
  a : ℕ
  b : ℕ
  c : ℕ
  d : ℕ
  e : ℕ
  f : ℕ
  g : ℕ
  h : ℕ
  deriving DecidableEq

namespace Paired

/-! ### Pairs of words -/

/-- Two numbers in one, the second one 128 places up. -/
def join (x y : ℕ) : ℕ :=
  x + 2 ^ 128 * y

def pair (x y : UInt64) : ℕ :=
  join x.toNat y.toNat

def clear (n : ℕ) : ℕ :=
  n.land 0xffffffffffffffff0000000000000000ffffffffffffffff

def double (word : ℕ) : ℕ :=
  word.mul 0x10000000000000001

theorem join_add (a b c d : ℕ) : join a b + join c d = join (a + c) (b + d) := by
  rw [join, join, join]
  ring

theorem testBit_join {x : ℕ} (h : x < 2 ^ 128) (y i : ℕ) :
    (join x y).testBit i = if i < 128 then x.testBit i else y.testBit (i - 128) := by
  rw [join, add_comm, Nat.testBit_two_pow_mul_add _ h]

theorem toNat_lt_room (word : UInt64) : word.toNat < 2 ^ 128 :=
  word.toNat_lt.trans (by decide)

theorem testBit_pair (x y : UInt64) (i : ℕ) :
    (pair x y).testBit i = if i < 128 then x.toNat.testBit i else y.toNat.testBit (i - 128) :=
  testBit_join (toNat_lt_room x) _ i

theorem pair_xor (x y x' y' : UInt64) :
    (pair x y).xor (pair x' y') = pair (x ^^^ x') (y ^^^ y') := by
  apply Nat.eq_of_testBit_eq
  intro i
  change (pair x y ^^^ pair x' y').testBit i = _
  rw [Nat.testBit_xor, testBit_pair, testBit_pair, testBit_pair, UInt64.toNat_xor,
    UInt64.toNat_xor, Nat.testBit_xor, Nat.testBit_xor]
  split <;> rfl

theorem pair_and (x y x' y' : UInt64) :
    (pair x y).land (pair x' y') = pair (x &&& x') (y &&& y') := by
  apply Nat.eq_of_testBit_eq
  intro i
  change (pair x y &&& pair x' y').testBit i = _
  rw [Nat.testBit_and, testBit_pair, testBit_pair, testBit_pair, UInt64.toNat_and,
    UInt64.toNat_and, Nat.testBit_and, Nat.testBit_and]
  split <;> rfl

theorem clear_eq (n : ℕ) : clear n = pair (UInt64.ofNat n) (UInt64.ofNat (n / 2 ^ 128)) := by
  apply Nat.eq_of_testBit_eq
  intro i
  have hmask : 0xffffffffffffffff0000000000000000ffffffffffffffff =
      join (2 ^ 64 - 1) (2 ^ 64 - 1) := by
    decide
  change (n &&& 0xffffffffffffffff0000000000000000ffffffffffffffff).testBit i = _
  rw [Nat.testBit_and, hmask, testBit_join (by decide), testBit_pair, UInt64.toNat_ofNat',
    UInt64.toNat_ofNat', Nat.testBit_mod_two_pow, Nat.testBit_mod_two_pow,
    Nat.testBit_two_pow_sub_one, Nat.testBit_two_pow_sub_one, Nat.testBit_div_two_pow]
  split
  · rw [Bool.and_comm]
  · rename_i hi
    rw [Bool.and_comm, Nat.sub_add_cancel (Nat.not_lt.mp hi)]

theorem join_div {x : ℕ} (h : x < 2 ^ 128) (y : ℕ) : join x y / 2 ^ 128 = y := by
  rw [join]
  omega

theorem clear_join {x : ℕ} (h : x < 2 ^ 128) (y : ℕ) :
    clear (join x y) = pair (UInt64.ofNat x) (UInt64.ofNat y) := by
  have hlow : UInt64.ofNat (join x y) = UInt64.ofNat x := by
    rw [← UInt64.toNat_inj, UInt64.toNat_ofNat', UInt64.toNat_ofNat', join]
    omega
  rw [clear_eq, hlow, join_div h]

theorem pair_div (x y : UInt64) : pair x y / 2 ^ 128 = y.toNat :=
  join_div (toNat_lt_room x) _

theorem pair_mod (x y : UInt64) : pair x y % 2 ^ 128 = x.toNat := by
  rw [pair, join, Nat.add_mul_mod_self_left, Nat.mod_eq_of_lt (toNat_lt_room x)]

theorem clear_xor (m n : ℕ) : clear (m.xor n) = (clear m).xor (clear n) :=
  Nat.and_xor_distrib_right ..

/-- Moving down, the upper number enters only the room that is cleared. -/
theorem clear_join_shiftRight {x : ℕ} (h : x < 2 ^ 128) (y : ℕ) {count : ℕ}
    (hcount : count ≤ 64) :
    clear ((join x y).shiftRight count) =
      pair (UInt64.ofNat (x / 2 ^ count)) (UInt64.ofNat (y / 2 ^ count)) := by
  have hroom : 2 ^ 128 * y = 2 ^ count * (2 ^ 64 * (2 ^ (64 - count) * y)) := by
    rw [← mul_assoc (2 ^ 64), ← pow_add, ← mul_assoc, ← pow_add]
    congr 2
    omega
  have hlow : join x y / 2 ^ count = x / 2 ^ count + 2 ^ 64 * (2 ^ (64 - count) * y) := by
    rw [join, hroom, Nat.add_mul_div_left _ _ (Nat.two_pow_pos count)]
  have hword : UInt64.ofNat (join x y / 2 ^ count) = UInt64.ofNat (x / 2 ^ count) := by
    rw [← UInt64.toNat_inj, UInt64.toNat_ofNat', UInt64.toNat_ofNat', hlow,
      Nat.add_mul_mod_self_left]
  change clear (join x y >>> count) = _
  rw [Nat.shiftRight_eq_div_pow, clear_eq, hword, Nat.div_div_eq_div_mul, mul_comm,
    ← Nat.div_div_eq_div_mul, join_div h]

/-! ### Sums -/

/-- Whether a number is a sum of so many pairs, with the given sums of words. -/
def IsSum (n count : ℕ) (x y : UInt64) : Prop :=
  ∃ a b, n = join a b ∧ a < count * 2 ^ 64 ∧ UInt64.ofNat a = x ∧ UInt64.ofNat b = y

theorem isSum_pair (x y : UInt64) : IsSum (pair x y) 1 x y :=
  ⟨x.toNat, y.toNat, rfl, by rw [one_mul]; exact x.toNat_lt, UInt64.ofNat_toNat,
    UInt64.ofNat_toNat⟩

theorem IsSum.add {m n i j : ℕ} {x y x' y' : UInt64} (hm : IsSum m i x y)
    (hn : IsSum n j x' y') :
    IsSum (m.add n) (i + j) (x + x') (y + y') := by
  obtain ⟨a, b, rfl, ha, rfl, rfl⟩ := hm
  obtain ⟨c, d, rfl, hc, rfl, rfl⟩ := hn
  exact ⟨a + c, b + d, join_add a b c d, by omega, UInt64.ofNat_add .., UInt64.ofNat_add ..⟩

theorem IsSum.add_pair {n count : ℕ} {x y : UInt64} (h : IsSum n count x y) (x' y' : UInt64) :
    IsSum (n.add (pair x' y')) (count + 1) (x + x') (y + y') :=
  h.add (isSum_pair x' y')

/-- The sums do not carry over to the upper word. -/
theorem IsSum.clear_eq {n count : ℕ} {x y : UInt64} (h : IsSum n count x y)
    (hcount : count ≤ 8) : clear n = pair x y := by
  obtain ⟨a, b, rfl, ha, rfl, rfl⟩ := h
  exact clear_join (by omega) b

/-! ### Rotations -/

theorem double_pair (x y : UInt64) :
    double (pair x y) = join (x.toNat * (2 ^ 64 + 1)) (y.toNat * (2 ^ 64 + 1)) := by
  change join x.toNat y.toNat * (2 ^ 64 + 1) = _
  rw [join, join]
  ring

/-- Two copies of a word moved down leave the word rotated in the place of the first. -/
theorem ofNat_div_eq_rotateRight64 (word : UInt64) {count : UInt64} (hpos : 0 < count.toNat)
    (hlt : count.toNat < 64) :
    UInt64.ofNat (word.toNat * (2 ^ 64 + 1) / 2 ^ count.toNat) = rotateRight64 word count := by
  have hback : (64 - count).toNat = 64 - count.toNat :=
    UInt64.toNat_sub_of_le _ _ (UInt64.le_iff_toNat_le.mpr hlt.le)
  have hcopies : word.toNat * (2 ^ 64 + 1) = 2 ^ 64 * word.toNat + word.toNat := by ring
  have hlarge : ∀ i, 64 ≤ i → word.toNat.testBit i = false := fun i hi =>
    Nat.testBit_lt_two_pow (word.toNat_lt.trans_le (Nat.pow_le_pow_right (by omega) hi))
  rw [← UInt64.toNat_inj]
  apply Nat.eq_of_testBit_eq
  intro i
  rw [UInt64.toNat_ofNat', Nat.testBit_mod_two_pow, Nat.testBit_div_two_pow, hcopies,
    Nat.testBit_two_pow_mul_add _ word.toNat_lt, rotateRight64, UInt64.toNat_or,
    UInt64.toNat_shiftRight, UInt64.toNat_shiftLeft, hback, Nat.mod_eq_of_lt hlt,
    Nat.mod_eq_of_lt (show 64 - count.toNat < 64 by omega), Nat.testBit_or,
    Nat.testBit_shiftRight,
    Nat.testBit_mod_two_pow, Nat.testBit_shiftLeft, add_comm i]
  by_cases hi : i < 64
  · by_cases hfirst : count.toNat + i < 64
    · have hnot : ¬64 - count.toNat ≤ i := by omega
      simp [hi, hfirst, hnot]
    · have hplace : 64 - count.toNat ≤ i := by omega
      have hindex : count.toNat + i - 64 = i - (64 - count.toNat) := by omega
      simp [hi, hfirst, hplace, hindex, hlarge (count.toNat + i) (by omega)]
  · simp [hi, hlarge (count.toNat + i) (by omega)]

def turned (i j k word : ℕ) : ℕ :=
  clear ((((double word).shiftRight i).xor ((double word).shiftRight j)).xor
    ((double word).shiftRight k))

def shifted (i j k word : ℕ) : ℕ :=
  clear ((((double word).shiftRight i).xor ((double word).shiftRight j)).xor
    (word.shiftRight k))

theorem clear_double_shiftRight (x y : UInt64) {count : UInt64} (hpos : 0 < count.toNat)
    (hlt : count.toNat < 64) :
    clear ((double (pair x y)).shiftRight count.toNat) =
      pair (rotateRight64 x count) (rotateRight64 y count) := by
  have hroom : x.toNat * (2 ^ 64 + 1) < 2 ^ 128 := by
    have := x.toNat_lt
    omega
  rw [double_pair, clear_join_shiftRight hroom _ hlt.le, ofNat_div_eq_rotateRight64 x hpos hlt,
    ofNat_div_eq_rotateRight64 y hpos hlt]

theorem clear_pair_shiftRight (x y : UInt64) {count : UInt64} (hlt : count.toNat < 64) :
    clear ((pair x y).shiftRight count.toNat) = pair (x >>> count) (y >>> count) := by
  have hshift (word : UInt64) : UInt64.ofNat (word.toNat / 2 ^ count.toNat) =
      word >>> count := by
    rw [← UInt64.toNat_inj, UInt64.toNat_shiftRight, Nat.mod_eq_of_lt hlt,
      Nat.shiftRight_eq_div_pow, UInt64.toNat_ofNat']
    exact Nat.mod_eq_of_lt ((Nat.div_le_self _ _).trans_lt word.toNat_lt)
  rw [pair, clear_join_shiftRight (toNat_lt_room x) _ hlt.le, hshift, hshift]

theorem turned_pair {i j k : UInt64} (hi : 0 < i.toNat ∧ i.toNat < 64)
    (hj : 0 < j.toNat ∧ j.toNat < 64) (hk : 0 < k.toNat ∧ k.toNat < 64) (x y : UInt64) :
    turned i.toNat j.toNat k.toNat (pair x y) =
      pair (rotateRight64 x i ^^^ rotateRight64 x j ^^^ rotateRight64 x k)
        (rotateRight64 y i ^^^ rotateRight64 y j ^^^ rotateRight64 y k) := by
  rw [turned, clear_xor, clear_xor, clear_double_shiftRight x y hi.1 hi.2,
    clear_double_shiftRight x y hj.1 hj.2, clear_double_shiftRight x y hk.1 hk.2,
    pair_xor, pair_xor]

theorem shifted_pair {i j k : UInt64} (hi : 0 < i.toNat ∧ i.toNat < 64)
    (hj : 0 < j.toNat ∧ j.toNat < 64) (hk : k.toNat < 64) (x y : UInt64) :
    shifted i.toNat j.toNat k.toNat (pair x y) =
      pair (rotateRight64 x i ^^^ rotateRight64 x j ^^^ x >>> k)
        (rotateRight64 y i ^^^ rotateRight64 y j ^^^ y >>> k) := by
  rw [shifted, clear_xor, clear_xor, clear_double_shiftRight x y hi.1 hi.2,
    clear_double_shiftRight x y hj.1 hj.2, clear_pair_shiftRight x y hk, pair_xor, pair_xor]

/-! ### Rounds -/

theorem choice_eq (e f g : UInt64) : g ^^^ (e &&& (f ^^^ g)) = (e &&& f) ^^^ (~~~e &&& g) := by
  rw [← UInt64.toBitVec_inj]
  ext i hi
  simp
  cases e.toBitVec[i] <;> cases f.toBitVec[i] <;> cases g.toBitVec[i] <;> simp

theorem majority_eq (a b c : UInt64) :
    (a &&& b) ^^^ (c &&& (a ^^^ b)) = (a &&& b) ^^^ (a &&& c) ^^^ (b &&& c) := by
  rw [← UInt64.toBitVec_inj]
  ext i hi
  simp
  cases a.toBitVec[i] <;> cases b.toBitVec[i] <;> simp

def next (w₀ w₁ w₉ w₁₄ : ℕ) : ℕ :=
  clear ((((shifted 19 61 6 w₁₄).add w₉).add (shifted 1 8 7 w₁)).add w₀)

/-- The sum that enters both new words of a round. -/
def first (e f g h input : ℕ) : ℕ :=
  ((h.add (turned 14 18 41 e)).add (g.xor (e.land (f.xor g)))).add input

def second (a b c : ℕ) : ℕ :=
  (turned 28 34 39 a).add ((a.land b).xor (c.land (a.xor b)))

/-- The rounds for some constants, from the window of the first and the state. The
recursor stands here itself, since a compiled recursion takes several more steps for
every round. -/
noncomputable def rounds (constants : List ℕ) :
    (w₀ w₁ w₂ w₃ w₄ w₅ w₆ w₇ w₈ w₉ w₁₀ w₁₁ w₁₂ w₁₃ w₁₄ w₁₅ a b c d e f g h : ℕ) → Paired :=
  List.rec (motive := fun _ =>
    (w₀ w₁ w₂ w₃ w₄ w₅ w₆ w₇ w₈ w₉ w₁₀ w₁₁ w₁₂ w₁₃ w₁₄ w₁₅ a b c d e f g h : ℕ) → Paired)
    (fun _ _ _ _ _ _ _ _ _ _ _ _ _ _ _ _ a b c d e f g h => ⟨a, b, c, d, e, f, g, h⟩)
    (fun k _ rest w₀ w₁ w₂ w₃ w₄ w₅ w₆ w₇ w₈ w₉ w₁₀ w₁₁ w₁₂ w₁₃ w₁₄ w₁₅ a b c d e f g h =>
      let sum := first e f g h (k.add w₀)
      rest w₁ w₂ w₃ w₄ w₅ w₆ w₇ w₈ w₉ w₁₀ w₁₁ w₁₂ w₁₃ w₁₄ w₁₅ (next w₀ w₁ w₉ w₁₄)
        (clear (sum.add (second a b c))) a b c (clear (d.add sum)) e f g)
    constants

theorem rounds_cons (k : ℕ) (constants : List ℕ)
    (w₀ w₁ w₂ w₃ w₄ w₅ w₆ w₇ w₈ w₉ w₁₀ w₁₁ w₁₂ w₁₃ w₁₄ w₁₅ a b c d e f g h : ℕ) :
    rounds (k :: constants)
        w₀ w₁ w₂ w₃ w₄ w₅ w₆ w₇ w₈ w₉ w₁₀ w₁₁ w₁₂ w₁₃ w₁₄ w₁₅ a b c d e f g h =
      rounds constants
        w₁ w₂ w₃ w₄ w₅ w₆ w₇ w₈ w₉ w₁₀ w₁₁ w₁₂ w₁₃ w₁₄ w₁₅ (next w₀ w₁ w₉ w₁₄)
        (clear ((first e f g h (k.add w₀)).add (second a b c))) a b c
        (clear (d.add (first e f g h (k.add w₀)))) e f g :=
  rfl

def column (v w : List UInt64) (place : ℕ) : ℕ :=
  pair (v.getD place 0) (w.getD place 0)

def ofStates (s t : State) : Paired :=
  ⟨pair s.a t.a, pair s.b t.b, pair s.c t.c, pair s.d t.d, pair s.e t.e, pair s.f t.f,
    pair s.g t.g, pair s.h t.h⟩

theorem next_column (v w : List UInt64) :
    next (column v w 0) (column v w 1) (column v w 9) (column v w 14) =
      pair (nextWord v) (nextWord w) := by
  have hfar (x y : UInt64) : shifted 1 8 7 (pair x y) = _ :=
    shifted_pair (i := 1) (j := 8) (k := 7) (by decide) (by decide) (by decide) x y
  have hnear (x y : UInt64) : shifted 19 61 6 (pair x y) = _ :=
    shifted_pair (i := 19) (j := 61) (k := 6) (by decide) (by decide) (by decide) x y
  rw [next, column, column, column, column, hfar, hnear]
  exact ((((isSum_pair _ _).add_pair _ _).add_pair _ _).add_pair _ _).clear_eq (by decide)

theorem isSum_first (s t : State) {input : ℕ} {x y : UInt64} (h : IsSum input 2 x y) :
    IsSum (first (pair s.e t.e) (pair s.f t.f) (pair s.g t.g) (pair s.h t.h) input) 5
      (s.h + (rotateRight64 s.e 14 ^^^ rotateRight64 s.e 18 ^^^ rotateRight64 s.e 41) +
        ((s.e &&& s.f) ^^^ (~~~s.e &&& s.g)) + x)
      (t.h + (rotateRight64 t.e 14 ^^^ rotateRight64 t.e 18 ^^^ rotateRight64 t.e 41) +
        ((t.e &&& t.f) ^^^ (~~~t.e &&& t.g)) + y) := by
  have hturned (x y : UInt64) : turned 14 18 41 (pair x y) = _ :=
    turned_pair (i := 14) (j := 18) (k := 41) (by decide) (by decide) (by decide) x y
  rw [first, hturned, pair_xor, pair_and, pair_xor, choice_eq, choice_eq]
  exact IsSum.add (i := 3) (j := 2) (((isSum_pair _ _).add_pair _ _).add_pair _ _) h

theorem isSum_second (s t : State) :
    IsSum (second (pair s.a t.a) (pair s.b t.b) (pair s.c t.c)) 2
      ((rotateRight64 s.a 28 ^^^ rotateRight64 s.a 34 ^^^ rotateRight64 s.a 39) +
        ((s.a &&& s.b) ^^^ (s.a &&& s.c) ^^^ (s.b &&& s.c)))
      ((rotateRight64 t.a 28 ^^^ rotateRight64 t.a 34 ^^^ rotateRight64 t.a 39) +
        ((t.a &&& t.b) ^^^ (t.a &&& t.c) ^^^ (t.b &&& t.c))) := by
  have hturned (x y : UInt64) : turned 28 34 39 (pair x y) = _ :=
    turned_pair (i := 28) (j := 34) (k := 39) (by decide) (by decide) (by decide) x y
  rw [second, hturned, pair_and, pair_xor, pair_and, pair_xor, majority_eq, majority_eq]
  exact (isSum_pair _ _).add_pair _ _

theorem getD_slide {window : List UInt64} (h : window.length = 16) {place : ℕ}
    (hplace : place < 15) :
    (slide window).getD place 0 = window.getD (place + 1) 0 := by
  cases window with
  | nil => cases h
  | cons w rest =>
      rw [List.length_cons] at h
      have hrest : place < rest.length := by omega
      simp [slide, hrest, List.getElem?_append_left hrest]

theorem getD_slide_last {window : List UInt64} (h : window.length = 16) :
    (slide window).getD 15 0 = nextWord window := by
  simp [slide, h]

theorem rounds_column (constants : List UInt64) {v w : List UInt64} (hv : v.length = 16)
    (hw : w.length = 16) (s t : State) :
    rounds (constants.map fun k => pair k k)
      (column v w 0) (column v w 1) (column v w 2) (column v w 3) (column v w 4) (column v w 5)
      (column v w 6) (column v w 7) (column v w 8) (column v w 9) (column v w 10)
      (column v w 11) (column v w 12) (column v w 13) (column v w 14) (column v w 15)
      (pair s.a t.a) (pair s.b t.b) (pair s.c t.c) (pair s.d t.d) (pair s.e t.e) (pair s.f t.f)
      (pair s.g t.g) (pair s.h t.h) =
      ofStates (runRounds constants v s) (runRounds constants w t) := by
  induction constants generalizing v w s t with
  | nil => rfl
  | cons k constants ih =>
      have hrounds := ih (length_slide hv) (length_slide hw) (s.round (k + v.getD 0 0))
        (t.round (k + w.getD 0 0))
      have hcolumn : ∀ place, place < 15 →
          column (slide v) (slide w) place = column v w (place + 1) := fun place hplace => by
        rw [column, column, getD_slide hv hplace, getD_slide hw hplace]
      have hlast : column (slide v) (slide w) 15 = pair (nextWord v) (nextWord w) := by
        rw [column, getD_slide_last hv, getD_slide_last hw]
      have hinput : IsSum ((pair k k).add (column v w 0)) 2 (k + v.getD 0 0)
          (k + w.getD 0 0) :=
        (isSum_pair k k).add_pair _ _
      have hsum := isSum_first s t hinput
      have hupper := (hsum.add (isSum_second s t)).clear_eq (by decide)
      have hlower := ((isSum_pair s.d t.d).add hsum).clear_eq (by decide)
      rw [List.map_cons, rounds_cons, next_column, hupper, hlower]
      simp (disch := decide) only [hcolumn, hlast, Nat.reduceAdd] at hrounds
      exact hrounds

/-! ### Blocks -/

def constants : List ℕ :=
  roundConstants.map fun k => k.toNat.mul 0x100000000000000000000000000000001

def add (s t : Paired) : Paired :=
  ⟨clear (s.a.add t.a), clear (s.b.add t.b), clear (s.c.add t.c), clear (s.d.add t.d),
    clear (s.e.add t.e), clear (s.f.add t.f), clear (s.g.add t.g), clear (s.h.add t.h)⟩

def words (s : Paired) : List ℕ :=
  [s.a, s.b, s.c, s.d, s.e, s.f, s.g, s.h]

noncomputable def compress (s : Paired) : List ℕ → Paired
  | [w₀, w₁, w₂, w₃, w₄, w₅, w₆, w₇, w₈, w₉, w₁₀, w₁₁, w₁₂, w₁₃, w₁₄, w₁₅] =>
    s.add (rounds constants w₀ w₁ w₂ w₃ w₄ w₅ w₆ w₇ w₈ w₉ w₁₀ w₁₁ w₁₂ w₁₃ w₁₄ w₁₅
      s.a s.b s.c s.d s.e s.f s.g s.h)
  | _ => s

theorem constants_eq : constants = roundConstants.map fun k => pair k k := by
  refine List.map_congr_left fun k _ => ?_
  change k.toNat * (2 ^ 128 + 1) = join k.toNat k.toNat
  rw [join]
  ring

theorem ofStates_add (s s' t t' : State) :
    (ofStates s t).add (ofStates s' t') = ofStates (s.add s') (t.add t') := by
  have hword (x x' y y' : UInt64) : clear ((pair x y).add (pair x' y')) =
      pair (x + x') (y + y') :=
    ((isSum_pair x y).add_pair x' y').clear_eq (by decide)
  simp only [add, ofStates, hword, State.add]

theorem words_ofStates (s t : State) : (ofStates s t).words = s.words.zipWith pair t.words :=
  rfl

theorem zipWith_pair {v w : List UInt64} (hv : v.length = 16) (hw : w.length = 16) :
    v.zipWith pair w = (List.range 16).map (column v w) := by
  refine List.ext_getElem (by simp [hv, hw]) fun i hi _ => ?_
  rw [List.length_zipWith, Nat.lt_min] at hi
  simp [column, List.getElem?_eq_getElem hi.1, List.getElem?_eq_getElem hi.2]

theorem compress_ofStates (s t : State) {v w : List UInt64} (hv : v.length = 16)
    (hw : w.length = 16) :
    (ofStates s t).compress (v.zipWith pair w) =
      ofStates (compressWords s v) (compressWords t w) := by
  have hrounds := rounds_column roundConstants hv hw s t
  rw [← constants_eq] at hrounds
  rw [zipWith_pair hv hw, compressWords, compressWords, ← ofStates_add, ← hrounds]
  rfl

/-! ### Keyed digests and stretching -/

def closing : List ℕ :=
  [0x800000000000000000000000000000008000000000000000, 0, 0, 0, 0, 0, 0,
    0x60000000000000000000000000000000600]

theorem closing_eq : closing = Sha512.closing.zipWith pair Sha512.closing := by
  decide

/-- The value of a function at a number that is evaluated first. -/
def force {α : Type} (n : ℕ) (f : ℕ → α) : α :=
  match n with
  | 0 => f 0
  | m + 1 => f (m + 1)

def settle {α : Type} (s : Paired) (f : Paired → α) : α :=
  force s.a fun a => force s.b fun b => force s.c fun c => force s.d fun d =>
    force s.e fun e => force s.f fun f' => force s.g fun g => force s.h fun h =>
      f ⟨a, b, c, d, e, f', g, h⟩

theorem force_eq {α : Type} (n : ℕ) (f : ℕ → α) : force n f = f n := by
  cases n <;> rfl

theorem settle_eq {α : Type} (s : Paired) (f : Paired → α) : s.settle f = f s := by
  simp only [settle, force_eq]

noncomputable def keyed (inner outer : Paired) (last : List ℕ) : Paired :=
  (inner.compress last).settle fun digest => outer.compress (digest.words ++ closing)

noncomputable def iterate (inner outer : Paired) : ℕ → Paired → ℕ → Paired × ℕ
  | 0, last, sum => (last, sum)
  | rounds + 1, last, sum =>
    (keyed inner outer (last.words ++ closing)).settle fun next =>
      force (sum.xor next.a) fun sum => iterate inner outer rounds next sum

theorem iterate_add (i o : Paired) (m n : ℕ) (last : Paired) (sum : ℕ) :
    iterate i o (m + n) last sum =
      iterate i o n (iterate i o m last sum).1 (iterate i o m last sum).2 := by
  induction m generalizing last sum with
  | zero => rw [Nat.zero_add, iterate]
  | succ m ih => simp only [Nat.succ_add, iterate, settle_eq, force_eq, ih]

theorem words_append_closing (s t : State) :
    (ofStates s t).words ++ closing =
      (s.words ++ Sha512.closing).zipWith pair (t.words ++ Sha512.closing) := by
  rw [closing_eq, words_ofStates, ← List.zipWith_append (by rfl)]

variable (i i' o o' : State)

theorem keyed_ofStates {v w : List UInt64} (hv : v.length = 16) (hw : w.length = 16) :
    keyed (ofStates i i') (ofStates o o') (v.zipWith pair w) =
      ofStates (keyedState i o v) (keyedState i' o' w) := by
  rw [keyed, settle_eq, compress_ofStates i i' hv hw, words_append_closing,
    compress_ofStates o o' rfl rfl, keyedState, keyedState]

theorem iterate_ofStates (rounds : ℕ) (s t : State) (x y : UInt64) :
    iterate (ofStates i i') (ofStates o o') rounds (ofStates s t) (pair x y) =
      (ofStates (iterateState i o rounds s x).1 (iterateState i' o' rounds t y).1,
        pair (iterateState i o rounds s x).2 (iterateState i' o' rounds t y).2) := by
  induction rounds generalizing s t x y with
  | zero => rfl
  | succ rounds ih =>
      have hsum (s' t' : State) : (pair x y).xor (ofStates s' t').a =
          pair (x ^^^ s'.a) (y ^^^ t'.a) :=
        pair_xor ..
      rw [iterate, settle_eq, force_eq, words_append_closing,
        keyed_ofStates i i' o o' rfl rfl, hsum, ih]
      rfl

/-- How far an iteration has come after some rounds, from first digests on. -/
structure Stage (inner outer first : Paired) (rounds : ℕ) where
  last : Paired
  sum : ℕ
  reached : iterate inner outer rounds first first.a = (last, sum)

def Stage.start (inner outer first : Paired) : Stage inner outer first 0 where
  last := first
  sum := first.a
  reached := rfl

def Stage.next {inner outer first : Paired} {m : ℕ} (stage : Stage inner outer first m) (n : ℕ)
    (last : Paired) (sum : ℕ) (h : iterate inner outer n stage.last stage.sum = (last, sum)) :
    Stage inner outer first (m + n) where
  last := last
  sum := sum
  reached := by rw [iterate_add, stage.reached, h]

/-- Two passphrases are stretched to different key material if that shows in the first
words of the sums. -/
theorem stretch_ne {p q salt : Bytes} {innerP outerP innerQ outerQ last : List UInt64}
    {rounds : ℕ} {inner outer first : Paired}
    (hp : KeyWords (function.keyBlock p) innerP outerP)
    (hq : KeyWords (function.keyBlock q) innerQ outerQ) (hlast : last.length = 16)
    (hsalt : salt ++ Bytes.ofNat 4 1 ++ HashFunction.completion 128 (128 + (salt.length + 4))
      (Bytes.ofNat 16 (8 * (128 + (salt.length + 4)))) = last.flatMap bytesOfWord64)
    (hinner : (ofStates .initial .initial).compress (innerP.zipWith pair innerQ) = inner)
    (houter : (ofStates .initial .initial).compress (outerP.zipWith pair outerQ) = outer)
    (hfirst : keyed inner outer (last.zipWith pair last) = first)
    (stage : Stage inner outer first (rounds - 1))
    (hne : stage.sum % 2 ^ 128 ≠ stage.sum / 2 ^ 128) :
    function.stretch p salt rounds ≠ function.stretch q salt rounds := by
  intro hstretch
  have hwordP := take_stretch hp hlast hsalt rounds
  have hwordQ := take_stretch hq hlast hsalt rounds
  rw [hstretch, hwordQ] at hwordP
  have hword := bytesOfWord64_injective hwordP
  rw [compress_ofStates _ _ hp.length_inner hq.length_inner] at hinner
  rw [compress_ofStates _ _ hp.length_outer hq.length_outer] at houter
  subst hinner houter
  rw [keyed_ofStates _ _ _ _ hlast hlast] at hfirst
  subst hfirst
  have hsums : pair _ _ = stage.sum :=
    congrArg Prod.snd ((iterate_ofStates ..).symm.trans stage.reached)
  rw [← hsums, hword, pair_mod, pair_div] at hne
  exact hne rfl

end Paired

end Keyring.Sha512
