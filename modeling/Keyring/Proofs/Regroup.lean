import Keyring.Proofs.Bytes.Bits
import Keyring.Proofs.Bytes.Chunks
import Keyring.Proofs.Outcome
import Keyring.Regroup
import Mathlib.Data.List.Induction

/-!
Regrouping keeps the bits.

Values of one width spell a sequence of bits. The window holds, in its low
places, the bits that are read and not yet written, so that at any time what was
written and what is pending spell together what was read. At the end the two
sides differ by zeros only. This is all there is to say about regrouping: filling
up and dropping are two readings of one relation.
-/

namespace Keyring

namespace GroupWidth

def Fits (width : GroupWidth) (values : Bytes) : Prop :=
  ∀ v ∈ values, v.toNat < 2 ^ width.bits

def spell (width : GroupWidth) (values : Bytes) : Bits :=
  values.flatMap fun v => Bits.ofNat width.bits v.toNat

variable {width : GroupWidth}

theorem fits_cons {v : UInt8} {rest : Bytes} :
    width.Fits (v :: rest) ↔ v.toNat < 2 ^ width.bits ∧ width.Fits rest :=
  List.forall_mem_cons

theorem fits_append {front back : Bytes} :
    width.Fits (front ++ back) ↔ width.Fits front ∧ width.Fits back :=
  List.forall_mem_append

theorem fits_byte (values : Bytes) : byte.Fits values :=
  fun v _ => v.toNat_lt

@[simp] theorem spell_nil : width.spell [] = [] := rfl

theorem spell_cons (v : UInt8) (rest : Bytes) :
    width.spell (v :: rest) = Bits.ofNat width.bits v.toNat ++ width.spell rest :=
  List.flatMap_cons ..

theorem spell_append (front back : Bytes) :
    width.spell (front ++ back) = width.spell front ++ width.spell back :=
  List.flatMap_append ..

theorem length_spell (values : Bytes) :
    (width.spell values).length = width.bits * values.length := by
  induction values with
  | nil => rfl
  | cons v rest ih =>
      rw [spell_cons, List.length_append, Bits.length_ofNat, ih, List.length_cons]
      ring

theorem toNat_spell_concat {v : UInt8} (h : v.toNat < 2 ^ width.bits) (values : Bytes) :
    Bits.toNat (width.spell (values ++ [v])) =
      Bits.toNat (width.spell values) * 2 ^ width.bits + v.toNat := by
  rw [spell_append, spell_cons, spell_nil, List.append_nil, Bits.toNat_append,
    Bits.length_ofNat, Bits.toNat_ofNat_of_lt h]

theorem toNat_spell_singleton {v : UInt8} (h : v.toNat < 2 ^ width.bits) :
    Bits.toNat (width.spell [v]) = v.toNat := by
  rw [← List.nil_append [v], toNat_spell_concat h, spell_nil, Bits.toNat_nil,
    zero_mul, zero_add]

/-- The bits of values stand for the number whose digits the values are. -/
theorem toNat_spell {values : Bytes} (h : width.Fits values) :
    Bits.toNat (width.spell values) =
      values.foldl (fun n v => n * 2 ^ width.bits + v.toNat) 0 := by
  induction values using List.reverseRecOn with
  | nil => rfl
  | append_singleton values v ih =>
      rw [fits_append, fits_cons] at h
      rw [toNat_spell_concat h.2.1, ih h.1, List.foldl_append]
      rfl

/-- Values whose bits start with those of some groups start with the groups. -/
theorem exists_of_spell_eq_append {values groups : Bytes} {rest : Bits}
    (hvalues : width.Fits values) (hgroups : width.Fits groups)
    (h : width.spell values = width.spell groups ++ rest) :
    ∃ tail, values = groups ++ tail ∧ width.spell tail = rest := by
  induction groups generalizing values with
  | nil => exact ⟨values, rfl, h⟩
  | cons g groups ih =>
      rw [fits_cons] at hgroups
      cases values with
      | nil =>
          have hlen := congrArg List.length h
          have hpos := width.bits_pos
          rw [spell_nil, spell_cons, List.append_assoc, List.length_append, Bits.length_ofNat,
            List.length_nil] at hlen
          omega
      | cons v values =>
          rw [fits_cons] at hvalues
          rw [spell_cons, spell_cons, List.append_assoc] at h
          obtain ⟨hfirst, hrest⟩ := List.append_inj h (by simp)
          have hvalue : v.toNat = g.toNat := by
            rw [← Bits.toNat_ofNat_of_lt hvalues.1, hfirst, Bits.toNat_ofNat_of_lt hgroups.1]
          obtain ⟨tail, rfl, htail⟩ := ih hvalues.2 hgroups.2 hrest
          exact ⟨tail, by rw [UInt8.toNat_inj.mp hvalue, List.cons_append], htail⟩

/-- Among values of one width and number, the number that they spell determines them. -/
theorem toNat_spell_inj {left right : Bytes} (hleft : width.Fits left)
    (hright : width.Fits right) (hlength : left.length = right.length) :
    Bits.toNat (width.spell left) = Bits.toNat (width.spell right) ↔ left = right := by
  constructor
  · intro h
    have hbits : width.spell left = width.spell right :=
      Bits.eq_of_toNat_eq (by rw [length_spell, length_spell, hlength]) h
    obtain ⟨tail, rfl, -⟩ :=
      exists_of_spell_eq_append hleft hright (hbits.trans (List.append_nil _).symm)
    rw [List.length_append, Nat.add_eq_left, List.length_eq_zero_iff] at hlength
    rw [hlength, List.append_nil]
  · rintro rfl
    rfl

end GroupWidth

namespace Regroup

variable {source target : GroupWidth} {leftover : Leftover} {window : UInt32}

/-! ### The window -/

theorem toNat_lowMask {bits : ℕ} (h : bits < 16) : (lowMask bits).toNat = 2 ^ bits - 1 := by
  have hall : ∀ n < 16, (lowMask n).toNat = 2 ^ n - 1 := by decide
  exact hall bits h

theorem toNat_shiftCount {count : ℕ} (h : count < 32) :
    (UInt32.ofNat count).toNat % 32 = count := by
  rw [UInt32.toNat_ofNat_of_lt' (by simp only [UInt32.size]; omega), Nat.mod_eq_of_lt h]

/-- Whether a window holds the pending bits in its low places. -/
def Holds (window : UInt32) (pending : Bits) : Prop :=
  window.toNat % 2 ^ pending.length = Bits.toNat pending

theorem holds_nil (window : UInt32) : Holds window [] :=
  Nat.mod_one _

/-- The bits in front of the pending ones are cut off by a shift, those behind by
a mask. -/
theorem Holds.split {front back : Bits} (h : Holds window (front ++ back)) :
    window.toNat / 2 ^ back.length % 2 ^ front.length = Bits.toNat front ∧
      Holds window back := by
  rw [Holds, List.length_append, add_comm, pow_add, Nat.mod_mul, Bits.toNat_append, add_comm,
    mul_comm (2 ^ back.length)] at h
  exact Bytes.digit_eq_of_add_eq (Nat.mod_lt _ (Nat.two_pow_pos _)) (Bits.toNat_lt back) h

/-- The mask of the window cuts off none of the pending bits, nor of those of the
value that is read. -/
theorem toNat_push_mod {v : UInt8} (hv : v.toNat < 2 ^ source.bits) {count : ℕ}
    (hcount : count < target.bits) :
    (Pending.push source target ⟨window, count⟩ v).window.toNat % 2 ^ (count + source.bits) =
      (window.toNat * 2 ^ source.bits + v.toNat) % 2 ^ (count + source.bits) := by
  have hsource := source.bits_le
  have htarget := target.bits_le
  have hmask : 2 ^ (count + source.bits) ∣ 2 ^ (source.bits + target.bits - 1) :=
    pow_dvd_pow 2 (by omega)
  have hword : 2 ^ (count + source.bits) ∣ 2 ^ 32 := pow_dvd_pow 2 (by omega)
  rw [Pending.push, UInt32.toNat_and, toNat_lowMask (by omega), Nat.and_two_pow_sub_one_eq_mod,
    Nat.mod_mod_of_dvd _ hmask, UInt32.toNat_or, UInt32.toNat_shiftLeft,
    toNat_shiftCount (by omega), UInt8.toNat_toUInt32, Nat.or_mod_two_pow,
    Nat.mod_mod_of_dvd _ hword, ← Nat.or_mod_two_pow, ← Nat.shiftLeft_add_eq_or_of_lt hv,
    Nat.shiftLeft_eq]

/-- A value that is read goes behind the pending bits. -/
theorem holds_push {pending : Bits} {v : UInt8} (h : Holds window pending)
    (hv : v.toNat < 2 ^ source.bits) (hpending : pending.length < target.bits) :
    Holds (Pending.push source target ⟨window, pending.length⟩ v).window
      (pending ++ Bits.ofNat source.bits v.toNat) := by
  have hread :
      (window.toNat * 2 ^ source.bits + v.toNat) % 2 ^ (pending.length + source.bits) =
      window.toNat % 2 ^ pending.length * 2 ^ source.bits + v.toNat := by
    rw [pow_add, mul_comm (2 ^ pending.length), Nat.mod_mul, Nat.mul_add_mod_self_right,
      Nat.mod_eq_of_lt hv, mul_comm window.toNat, Nat.mul_add_div (Nat.two_pow_pos _),
      Nat.div_eq_of_lt hv, add_zero, add_comm, mul_comm (2 ^ source.bits)]
  rw [Holds, List.length_append, Bits.length_ofNat, toNat_push_mod hv hpending, hread, h,
    Bits.toNat_append, Bits.length_ofNat, Bits.toNat_ofNat_of_lt hv]

/-- The group that is cut out of a window is the one that the bits in front spell. -/
theorem toNat_group {front back : Bits} (h : Holds window (front ++ back))
    (hfront : front.length = target.bits) (hback : back.length < 32) :
    ((window >>> UInt32.ofNat back.length) &&& lowMask target.bits).toUInt8.toNat =
      Bits.toNat front := by
  have hbyte : Bits.toNat front < 2 ^ 8 :=
    (Bits.toNat_lt front).trans_le
      (Nat.pow_le_pow_right (by omega) (hfront ▸ target.bits_le))
  have htarget := target.bits_le
  rw [UInt32.toNat_toUInt8, UInt32.toNat_and, toNat_lowMask (by omega),
    Nat.and_two_pow_sub_one_eq_mod, UInt32.toNat_shiftRight, toNat_shiftCount hback,
    Nat.shiftRight_eq_div_pow, ← hfront, h.split.1, Nat.mod_eq_of_lt hbyte]

theorem emit_of_lt {count : ℕ} (h : count < target.bits) :
    emit target window count = ([], count) := by
  rw [emit, if_neg (not_le.mpr h)]

theorem emit_of_le {count : ℕ} (h : target.bits ≤ count) :
    emit target window count =
      (((window >>> UInt32.ofNat (count - target.bits)) &&& lowMask target.bits).toUInt8 ::
        (emit target window (count - target.bits)).1,
        (emit target window (count - target.bits)).2) := by
  rw [emit, if_pos h]

/-- Writing takes whole groups off the front of the pending bits. -/
theorem exists_emit_eq {pending : Bits} (h : Holds window pending)
    (hlen : pending.length < 32) :
    ∃ groups rest, emit target window pending.length = (groups, rest.length) ∧
      target.Fits groups ∧ rest.length < target.bits ∧ pending = target.spell groups ++ rest ∧
        Holds window rest := by
  -- The bits leave in groups, so the induction takes one group off their front at a time.
  induction pending using Bytes.chunks_induction target.bits_pos with
  | nil =>
      exact ⟨[], [], emit_of_lt target.bits_pos, List.forall_mem_nil _,
        target.bits_pos, rfl, h⟩
  | piece pending _ ih =>
      by_cases hfull : target.bits ≤ pending.length
      · obtain ⟨front, back, rfl, hfront⟩ : ∃ front back, pending = front ++ back ∧
            front.length = target.bits :=
          ⟨_, _, (List.take_append_drop target.bits pending).symm,
            List.length_take_of_le hfull⟩
        rw [List.length_append] at hlen
        rw [List.drop_left' hfront] at ih
        obtain ⟨groups, rest, hemit, hgroups, hrest, hback, hholds⟩ := ih h.split.2 (by omega)
        have hlength : (front ++ back).length - target.bits = back.length := by
          rw [List.length_append, hfront, Nat.add_sub_cancel_left]
        obtain ⟨group, hgroup, hfirst⟩ : ∃ group : UInt8, group.toNat = Bits.toNat front ∧
            emit target window (front ++ back).length = (group :: groups, rest.length) :=
          ⟨_, toNat_group h hfront (by omega), by rw [emit_of_le hfull, hlength, hemit]⟩
        refine ⟨group :: groups, rest, hfirst, GroupWidth.fits_cons.mpr ⟨?_, hgroups⟩,
          hrest, ?_, hholds⟩
        · rw [hgroup, ← hfront]
          exact Bits.toNat_lt front
        · rw [GroupWidth.spell_cons, hgroup, ← hfront, Bits.ofNat_toNat,
            List.append_assoc, ← hback]
      · rw [not_le] at hfull
        exact ⟨[], pending, emit_of_lt hfull, List.forall_mem_nil _, hfull, rfl, h⟩

/-! ### The end -/

/-- The leftover bits, filled up with zeros. -/
theorem toNat_filled {pending : Bits} (h : Holds window pending)
    (hpending : pending.length < target.bits) :
    (Pending.filled target ⟨window, pending.length⟩).toNat =
      Bits.toNat (pending ++ List.replicate (target.bits - pending.length) false) := by
  have htarget := target.bits_le
  have hword : 2 ^ target.bits ∣ 2 ^ 32 := pow_dvd_pow 2 (by omega)
  have hbyte : 2 ^ target.bits ≤ 2 ^ 8 := Nat.pow_le_pow_right (by omega) htarget
  have hpow : 2 ^ target.bits =
      2 ^ pending.length * 2 ^ (target.bits - pending.length) := by
    rw [← pow_add, Nat.add_sub_cancel' hpending.le]
  rw [Pending.filled, UInt32.toNat_toUInt8, UInt32.toNat_and, toNat_lowMask (by omega),
    Nat.and_two_pow_sub_one_eq_mod, UInt32.toNat_shiftLeft, toNat_shiftCount (by omega),
    Nat.shiftLeft_eq, Nat.mod_mod_of_dvd _ hword,
    Nat.mod_eq_of_lt ((Nat.mod_lt _ (Nat.two_pow_pos _)).trans_le hbyte), hpow,
    Nat.mul_mod_mul_right, h, Bits.toNat_append, Bits.toNat_replicate_false,
    List.length_replicate,
    add_zero]

/-- How the bits that are read and those that are written may differ: by zeros at
the end, too few to make up a group. -/
def Matches (source target : GroupWidth) : Leftover → Bits → Bits → Prop
  | .fill, read, written => ∃ n < target.bits, written = read ++ List.replicate n false
  | .drop, read, written =>
    ∃ n < target.bits, n < source.bits ∧ read = written ++ List.replicate n false

theorem matches_append {front read written : Bits} :
    Matches source target leftover (front ++ read) (front ++ written) ↔
      Matches source target leftover read written := by
  cases leftover <;> simp [Matches]

/-- Where read bits start with those of some groups, what is written starts with
the groups. -/
theorem exists_of_matches_append {groups out : Bytes} {read : Bits}
    (hgroups : target.Fits groups) (hout : target.Fits out)
    (h : Matches source target leftover (target.spell groups ++ read) (target.spell out)) :
    ∃ tail, out = groups ++ tail ∧
      Matches source target leftover read (target.spell tail) := by
  have hstart : ∃ rest, target.spell out = target.spell groups ++ rest := by
    cases leftover with
    | fill =>
        obtain ⟨n, -, hspell⟩ := h
        exact ⟨_, hspell.trans (List.append_assoc ..)⟩
    | drop =>
        obtain ⟨n, hn, -, hspell⟩ := h
        rcases List.append_eq_append_iff.mp hspell with ⟨rest, hrest, -⟩ |
          ⟨rest, hrest, hzeros⟩
        · exact ⟨rest, hrest⟩
        -- What the groups spell beyond the end of the output is shorter than a group.
        · have hlength := congrArg List.length hrest
          have hshort := congrArg List.length hzeros
          rw [List.length_append, GroupWidth.length_spell, GroupWidth.length_spell] at hlength
          rw [List.length_append, List.length_replicate] at hshort
          have hnil : rest.length = 0 := by
            have hdvd : target.bits ∣ rest.length :=
              (Nat.dvd_add_right (dvd_mul_right _ _)).mp (hlength ▸ dvd_mul_right _ _)
            exact Nat.eq_zero_of_dvd_of_lt hdvd (by omega)
          rw [List.length_eq_zero_iff] at hnil
          exact ⟨[], by rw [hrest, hnil, List.append_nil, List.append_nil]⟩
  obtain ⟨rest, hrest⟩ := hstart
  obtain ⟨tail, rfl, -⟩ := GroupWidth.exists_of_spell_eq_append hout hgroups hrest
  rw [GroupWidth.spell_append, matches_append] at h
  exact ⟨tail, rfl, h⟩

theorem fits_filled {pending : Bits} (h : Holds window pending)
    (hpending : pending.length < target.bits) :
    target.Fits [Pending.filled target ⟨window, pending.length⟩] := by
  rw [GroupWidth.fits_cons, toNat_filled h hpending]
  refine ⟨(Bits.toNat_lt _).trans_eq (congrArg _ ?_), List.forall_mem_nil _⟩
  rw [List.length_append, List.length_replicate, Nat.add_sub_cancel' hpending.le]

/-- The last group spells the pending bits and the zeros that fill them up. -/
theorem spell_filled {pending : Bits} (h : Holds window pending)
    (hpending : pending.length < target.bits) :
    target.spell [Pending.filled target ⟨window, pending.length⟩] =
      pending ++ List.replicate (target.bits - pending.length) false := by
  apply Bits.eq_of_toNat_eq
  · rw [GroupWidth.length_spell, List.length_singleton, mul_one, List.length_append,
      List.length_replicate, Nat.add_sub_cancel' hpending.le]
  · have hfits := (GroupWidth.fits_cons.mp (fits_filled h hpending)).1
    rw [GroupWidth.toNat_spell_singleton hfits, toNat_filled h hpending]

/-- Fewer bits than a group are filled up to one group, or there are none. -/
theorem finish_fill_eq_ok_iff {pending : Bits} {out : Bytes} (h : Holds window pending)
    (hpending : pending.length < target.bits) :
    finish source target .fill ⟨window, pending.length⟩ = .ok out ↔
      target.Fits out ∧ Matches source target .fill pending (target.spell out) := by
  rw [finish, Except.ok.injEq]
  change (if 0 < pending.length then [Pending.filled target ⟨window, pending.length⟩]
    else []) = out ↔ _
  constructor
  · rintro rfl
    split
    · exact ⟨fits_filled h hpending, target.bits - pending.length, by omega,
        spell_filled h hpending⟩
    · have hnil : pending = [] := List.length_eq_zero_iff.mp (by omega)
      exact ⟨List.forall_mem_nil _, 0, target.bits_pos, by rw [hnil]; rfl⟩
  · rintro ⟨hout, n, hn, hspell⟩
    have hlength := congrArg List.length hspell
    rw [GroupWidth.length_spell, List.length_append, List.length_replicate] at hlength
    match out with
    | [] =>
        rw [List.length_nil, mul_zero] at hlength
        exact if_neg (by omega)
    | [v] =>
        rw [List.length_singleton, mul_one] at hlength
        obtain rfl : n = target.bits - pending.length := by omega
        rw [if_pos (by omega), ← GroupWidth.toNat_spell_inj (fits_filled h hpending) hout rfl,
          spell_filled h hpending, hspell]
    | _ :: _ :: out =>
        rw [List.length_cons, List.length_cons, mul_add, mul_add] at hlength
        omega

/-- Fewer bits than a group are dropped if they are zeros, and fewer than a group of
the source. -/
theorem finish_drop_eq_ok_iff {pending : Bits} {out : Bytes} (h : Holds window pending)
    (hpending : pending.length < target.bits) :
    finish source target .drop ⟨window, pending.length⟩ = .ok out ↔
      target.Fits out ∧ Matches source target .drop pending (target.spell out) := by
  have hfilled := toNat_filled h hpending
  rw [Bits.toNat_append, Bits.toNat_replicate_false, add_zero,
    List.length_replicate] at hfilled
  have hzero : Pending.filled target ⟨window, pending.length⟩ = 0 ↔
      Bits.toNat pending = 0 := by
    rw [← UInt8.toNat_inj, hfilled, UInt8.toNat_zero, mul_eq_zero,
      or_iff_left (Nat.two_pow_pos _).ne']
  -- There is no room for a group in front of the zeros.
  have hempty : ∀ n, pending = target.spell out ++ List.replicate n false →
      out = [] ∧ pending = List.replicate n false := by
    intro n hspell
    have hlength := congrArg List.length hspell
    rw [List.length_append, GroupWidth.length_spell] at hlength
    have hnil : out = [] := by
      by_contra hout
      have hgroup := Nat.le_mul_of_pos_right target.bits (List.length_pos_iff.mpr hout)
      omega
    exact ⟨hnil, by rw [hspell, hnil, GroupWidth.spell_nil, List.nil_append]⟩
  rw [finish]
  change (if source.bits ≤ pending.length ∨ Pending.filled target ⟨window, pending.length⟩ ≠ 0
    then _ else _) = _ ↔ _
  split
  · rename_i hbad
    simp only [reduceCtorEq, false_iff]
    rintro ⟨-, n, -, hn, hspell⟩
    obtain ⟨-, rfl⟩ := hempty n hspell
    rw [Ne, hzero, List.length_replicate, Bits.toNat_replicate_false] at hbad
    omega
  · rename_i hgood
    rw [not_or, not_le, not_not, hzero] at hgood
    rw [Except.ok.injEq]
    constructor
    · rintro rfl
      exact ⟨List.forall_mem_nil _, pending.length, hpending, hgood.1,
        Bits.eq_of_toNat_eq (by simp) (by simp [hgood.2])⟩
    · rintro ⟨-, n, -, -, hspell⟩
      exact (hempty n hspell).1.symm

theorem finish_eq_ok_iff {pending : Bits} {out : Bytes} (h : Holds window pending)
    (hpending : pending.length < target.bits) :
    finish source target leftover ⟨window, pending.length⟩ = .ok out ↔
      target.Fits out ∧ Matches source target leftover pending (target.spell out) := by
  cases leftover with
  | fill => exact finish_fill_eq_ok_iff h hpending
  | drop => exact finish_drop_eq_ok_iff h hpending

theorem wide_iff {v : UInt8} :
    v.toUInt32 >>> UInt32.ofNat source.bits ≠ 0 ↔ ¬v.toNat < 2 ^ source.bits := by
  have hsource := source.bits_le
  rw [Ne, ← UInt32.toNat_inj, UInt32.toNat_shiftRight, toNat_shiftCount (by omega),
    UInt8.toNat_toUInt32, UInt32.toNat_zero, Nat.shiftRight_eq_div_pow,
    Nat.div_eq_zero_iff_lt (Nat.two_pow_pos _)]

def emitted (source target : GroupWidth) (pending : Pending) (v : UInt8) : Bytes × ℕ :=
  emit target (pending.push source target v).window (pending.count + source.bits)

theorem run_cons {pending : Pending} {v : UInt8} {rest : Bytes}
    (hv : v.toNat < 2 ^ source.bits) :
    run source target leftover pending (v :: rest) =
      run source target leftover
        ⟨(pending.push source target v).window, (emitted source target pending v).2⟩ rest >>=
          fun tail => .ok ((emitted source target pending v).1 ++ tail) := by
  rw [run, if_neg (by rwa [wide_iff, not_not])]
  rfl

/-- From any pending bits on, reading succeeds with exactly the values that spell
the pending bits and the bits that are read. -/
theorem run_eq_ok_iff {pending : Bits} {values out : Bytes} (h : Holds window pending)
    (hpending : pending.length < target.bits) :
    run source target leftover ⟨window, pending.length⟩ values = .ok out ↔
      source.Fits values ∧ target.Fits out ∧
        Matches source target leftover (pending ++ source.spell values)
          (target.spell out) := by
  -- Along the values: each one leaves fewer bits than a group, held by the window.
  induction values generalizing window pending out with
  | nil =>
      rw [run, finish_eq_ok_iff h hpending, GroupWidth.spell_nil, List.append_nil]
      exact ⟨fun hend => ⟨List.forall_mem_nil _, hend⟩, fun hend => hend.2⟩
  | cons v rest ih =>
      rw [GroupWidth.fits_cons]
      by_cases hv : v.toNat < 2 ^ source.bits
      · have hsource := source.bits_le
        have htarget := target.bits_le
        have hlength : (pending ++ Bits.ofNat source.bits v.toNat).length =
            pending.length + source.bits := by
          rw [List.length_append, Bits.length_ofNat]
        obtain ⟨groups, left, hemit, hgroups, hleft, hread, hholds⟩ :=
          exists_emit_eq (holds_push h hv hpending) (by omega)
        have hemitted : emitted source target ⟨window, pending.length⟩ v =
            (groups, left.length) := by
          rw [← hemit, hlength]
          rfl
        have hspell : pending ++ source.spell (v :: rest) =
            target.spell groups ++ (left ++ source.spell rest) := by
          rw [GroupWidth.spell_cons, ← List.append_assoc, hread, List.append_assoc]
        rw [run_cons hv, hemitted, bind_eq_ok_iff, hspell]
        constructor
        · rintro ⟨tail, htail, hout⟩
          rw [ih hholds hleft] at htail
          rw [Except.ok.injEq] at hout
          rw [← hout, GroupWidth.fits_append, GroupWidth.spell_append, matches_append]
          exact ⟨⟨hv, htail.1⟩, ⟨hgroups, htail.2.1⟩, htail.2.2⟩
        · rintro ⟨⟨-, hrest⟩, hout, hmatches⟩
          obtain ⟨tail, rfl, htail⟩ := exists_of_matches_append hgroups hout hmatches
          rw [GroupWidth.fits_append] at hout
          exact ⟨tail, (ih hholds hleft).mpr ⟨hrest, hout.2, htail⟩, rfl⟩
      · rw [run, if_pos (by rwa [wide_iff])]
        simp [hv]

/-- Filling up never refuses values that fit. -/
theorem exists_run_fill_eq_ok {values : Bytes} (hvalues : source.Fits values)
    (pending : Pending) :
    ∃ out, run source target .fill pending values = .ok out := by
  induction values generalizing pending with
  | nil => exact ⟨_, rfl⟩
  | cons v rest ih =>
      rw [GroupWidth.fits_cons] at hvalues
      obtain ⟨tail, htail⟩ := ih hvalues.2
        ⟨(pending.push source target v).window, (emitted source target pending v).2⟩
      exact ⟨_, by rw [run_cons hvalues.1, htail]; rfl⟩

end Regroup

variable {source target : GroupWidth}

/-- Regrouping succeeds with exactly the values that spell the same bits. -/
theorem regroup_eq_ok_iff {leftover : Leftover} {values out : Bytes} :
    regroup source target leftover values = .ok out ↔
      source.Fits values ∧ target.Fits out ∧
        Regroup.Matches source target leftover (source.spell values) (target.spell out) :=
  Regroup.run_eq_ok_iff (Regroup.holds_nil 0) target.bits_pos

theorem exists_regroup_fill_eq_ok {values : Bytes} (h : source.Fits values) :
    ∃ out, regroup source target .fill values = .ok out :=
  Regroup.exists_run_fill_eq_ok h ⟨0, 0⟩

/-- Strict widening undoes padded narrowing and accepts nothing else. -/
theorem regroup_drop_iff_regroup_fill (h : source.bits ≤ target.bits) {values out : Bytes} :
    regroup source target .drop values = .ok out ↔
      regroup target source .fill out = .ok values := by
  rw [regroup_eq_ok_iff, regroup_eq_ok_iff]
  constructor
  · rintro ⟨hvalues, hout, n, -, hn, hspell⟩
    exact ⟨hout, hvalues, n, hn, hspell⟩
  · rintro ⟨hout, hvalues, n, hn, hspell⟩
    exact ⟨hvalues, hout, n, hn.trans_le h, hn, hspell⟩

end Keyring
