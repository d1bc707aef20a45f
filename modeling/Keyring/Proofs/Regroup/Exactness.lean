import Keyring.Proofs.Regroup.Groups

/-!
Regrouping is exact, in what it returns and in each state on the way.

Between two steps, the bits that are read are those that are written and the low bits of the
window. Reading a value and writing a group both keep this, so the mask of the window takes
off none of the bits that are still to be written. The window is below two to the fifteen and
no shift is by more than fifteen places, so no shift leaves the word.
-/

namespace Keyring

namespace Regroup

variable {source target : GroupWidth} {leftover : Leftover} {values written : Bytes}
  {pending : Pending}

def Pending.group (target : GroupWidth) (pending : Pending) : UInt8 :=
  ((pending.window >>> UInt32.ofNat (pending.count - target.bits)) &&&
    lowMask target.bits).toUInt8

/-- The states that regrouping passes through: what is read, what is written and what is
pending. A value is read once no group is left to write. -/
inductive Reaches (source target : GroupWidth) : Bytes → Bytes → Pending → Prop
  | start : Reaches source target [] [] ⟨0, 0⟩
  | read {values written : Bytes} {pending : Pending} {v : UInt8} :
      Reaches source target values written pending → pending.count < target.bits →
      v.toNat < 2 ^ source.bits →
      Reaches source target (values ++ [v]) written (pending.push source target v)
  | write {values written : Bytes} {pending : Pending} :
      Reaches source target values written pending → target.bits ≤ pending.count →
      Reaches source target values (written ++ [pending.group target])
        ⟨pending.window, pending.count - target.bits⟩

/-! ### No bit is lost -/

/-- What every state keeps: the values that are read spell what is written and what is
pending. -/
structure Keeps (source target : GroupWidth) (values written : Bytes) (pending : Pending) :
    Prop where
  fits : target.Fits written
  spell_eq : source.spell values =
    target.spell written ++ Bits.ofNat pending.count pending.window.toNat
  count_lt : pending.count < source.bits + target.bits
  window_lt : pending.window.toNat < 2 ^ (source.bits + target.bits - 1)

theorem holds_ofNat (window : UInt32) (count : ℕ) :
    Holds window (Bits.ofNat count window.toNat) := by
  rw [Holds, Bits.length_ofNat, Bits.toNat_ofNat]

theorem Holds.ofNat_eq {window : UInt32} {pending : Bits} (h : Holds window pending) :
    Bits.ofNat pending.length window.toNat = pending := by
  apply Bits.eq_of_toNat_eq (Bits.length_ofNat _ _)
  rw [Bits.toNat_ofNat]
  exact h

theorem keeps_start : Keeps source target [] [] ⟨0, 0⟩ where
  fits := List.forall_mem_nil _
  spell_eq := rfl
  count_lt := Nat.add_pos_left source.bits_pos _
  window_lt := Nat.two_pow_pos _

theorem window_push_lt (v : UInt8) :
    (pending.push source target v).window.toNat < 2 ^ (source.bits + target.bits - 1) := by
  have hsource := source.bits_le
  have htarget := target.bits_le
  rw [Pending.push, UInt32.toNat_and, toNat_lowMask (by omega), Nat.and_two_pow_sub_one_eq_mod]
  exact Nat.mod_lt _ (Nat.two_pow_pos _)

/-- The pending bits and those of the value that is read are all in the window, once the mask
has cut it. -/
theorem ofNat_push {v : UInt8} (hcount : pending.count < target.bits)
    (hv : v.toNat < 2 ^ source.bits) :
    Bits.ofNat (pending.count + source.bits) (pending.push source target v).window.toNat =
      Bits.ofNat pending.count pending.window.toNat ++ Bits.ofNat source.bits v.toNat := by
  have hlength := Bits.length_ofNat pending.count pending.window.toNat
  have hholds := holds_push (holds_ofNat pending.window pending.count) hv
    (hlength.trans_lt hcount)
  rw [hlength] at hholds
  rw [← hholds.ofNat_eq, List.length_append, Bits.length_ofNat, Bits.length_ofNat]

theorem Keeps.read {v : UInt8} (h : Keeps source target values written pending)
    (hcount : pending.count < target.bits) (hv : v.toNat < 2 ^ source.bits) :
    Keeps source target (values ++ [v]) written (pending.push source target v) where
  fits := h.fits
  spell_eq := by
    show _ = target.spell written ++
      Bits.ofNat (pending.count + source.bits) (pending.push source target v).window.toNat
    rw [ofNat_push hcount hv, GroupWidth.spell_append, GroupWidth.spell_cons,
      GroupWidth.spell_nil, List.append_nil, h.spell_eq, List.append_assoc]
  count_lt := by
    show pending.count + source.bits < _
    omega
  window_lt := window_push_lt v

/-- The group that is written and the bits that stay are the pending bits. -/
theorem ofNat_group (hcount : target.bits ≤ pending.count) (hshort : pending.count < 32) :
    (pending.group target).toNat < 2 ^ target.bits ∧
      Bits.ofNat target.bits (pending.group target).toNat ++
          Bits.ofNat (pending.count - target.bits) pending.window.toNat =
        Bits.ofNat pending.count pending.window.toNat := by
  obtain ⟨front, back, happend, hfront, hback⟩ : ∃ front back : Bits,
      Bits.ofNat pending.count pending.window.toNat = front ++ back ∧
        front.length = target.bits ∧ back.length = pending.count - target.bits := by
    refine ⟨_, _, (List.take_append_drop target.bits _).symm, ?_, ?_⟩
    · rw [List.length_take, Bits.length_ofNat, Nat.min_eq_left hcount]
    · rw [List.length_drop, Bits.length_ofNat]
  have hholds := holds_ofNat pending.window pending.count
  rw [happend] at hholds
  have hgroup : (pending.group target).toNat = Bits.toNat front := by
    rw [Pending.group, ← hback]
    exact toNat_group hholds hfront (by omega)
  rw [hgroup, happend, ← hback, hholds.split.2.ofNat_eq, ← hfront, Bits.ofNat_toNat]
  exact ⟨Bits.toNat_lt front, rfl⟩

theorem Keeps.write (h : Keeps source target values written pending)
    (hcount : target.bits ≤ pending.count) :
    Keeps source target values (written ++ [pending.group target])
      ⟨pending.window, pending.count - target.bits⟩ := by
  have hsource := source.bits_le
  have htarget := target.bits_le
  have hlt := h.count_lt
  obtain ⟨hgroup, hbits⟩ := ofNat_group hcount (by omega)
  constructor
  · rw [GroupWidth.fits_append, GroupWidth.fits_cons]
    exact ⟨h.fits, hgroup, List.forall_mem_nil _⟩
  · rw [h.spell_eq, ← hbits, GroupWidth.spell_append, GroupWidth.spell_cons,
      GroupWidth.spell_nil, List.append_nil, List.append_assoc]
  · show pending.count - target.bits < _
    omega
  · exact h.window_lt

theorem keeps_of_reaches (h : Reaches source target values written pending) :
    Keeps source target values written pending := by
  induction h with
  | start => exact keeps_start
  | read _ hcount hv ih => exact ih.read hcount hv
  | write _ hcount ih => exact ih.write hcount

/-! ### No shift overflows -/

/-- Whether a word can be shifted to the left without losing a bit. -/
def CanShift (word : UInt32) (places : ℕ) : Prop :=
  places < 32 ∧ word.toNat * 2 ^ places < 2 ^ 32

/-- Whether none of the shifts that a state may come to overflows: those of the masks, of the
window when a value is read or the last group is filled up, and to the right when a group is
written. -/
structure IsRoomy (source target : GroupWidth) (pending : Pending) : Prop where
  windowMask : CanShift 1 (source.bits + target.bits - 1)
  groupMask : CanShift 1 target.bits
  read : CanShift pending.window source.bits
  fill : CanShift pending.window (target.bits - pending.count)
  write : pending.count - target.bits < 32

theorem canShift_of_lt {word : UInt32} {bits places : ℕ} (h : word.toNat < 2 ^ bits)
    (hsum : bits + places ≤ 31) : CanShift word places := by
  refine ⟨by omega, ?_⟩
  calc
    word.toNat * 2 ^ places < 2 ^ bits * 2 ^ places :=
      Nat.mul_lt_mul_of_pos_right h (Nat.two_pow_pos _)
    _ = 2 ^ (bits + places) := (pow_add 2 bits places).symm
    _ ≤ 2 ^ 32 := Nat.pow_le_pow_right (by omega) (by omega)

theorem Keeps.isRoomy (h : Keeps source target values written pending) :
    IsRoomy source target pending := by
  have hsource := source.bits_le
  have htarget := target.bits_le
  have hone : (1 : UInt32).toNat < 2 ^ 1 := by decide
  have hcount := h.count_lt
  constructor
  · exact canShift_of_lt hone (by omega)
  · exact canShift_of_lt hone (by omega)
  · exact canShift_of_lt h.window_lt (by omega)
  · exact canShift_of_lt h.window_lt (by omega)
  · omega

/-! ### The states are those of regrouping -/

/-- Writing passes through states. -/
theorem reaches_emit {window : UInt32} (count : ℕ)
    (h : Reaches source target values written ⟨window, count⟩) :
    Reaches source target values (written ++ (emit target window count).1)
        ⟨window, (emit target window count).2⟩ ∧
      (emit target window count).2 < target.bits := by
  induction count using Nat.strong_induction_on generalizing written with
  | _ count ih =>
      by_cases hcount : target.bits ≤ count
      · have hpos := target.bits_pos
        have hnext := ih (count - target.bits) (by omega) (h.write hcount)
        rw [List.append_assoc, List.singleton_append] at hnext
        rw [emit_of_le hcount]
        exact hnext
      · rw [not_le] at hcount
        rw [emit_of_lt hcount, List.append_nil]
        exact ⟨h, hcount⟩

theorem reaches_emitted {v : UInt8} (h : Reaches source target values written pending)
    (hcount : pending.count < target.bits) (hv : v.toNat < 2 ^ source.bits) :
    Reaches source target (values ++ [v]) (written ++ (emitted source target pending v).1)
        ⟨(pending.push source target v).window, (emitted source target pending v).2⟩ ∧
      (emitted source target pending v).2 < target.bits :=
  reaches_emit _ (h.read hcount hv)

/-- From any state on, reading goes through states, and what it gives is decided by the last
of them. -/
theorem exists_reaches_of_run {rest : Bytes} (h : Reaches source target values written pending)
    (hcount : pending.count < target.bits) (hrest : source.Fits rest) :
    ∃ more last, Reaches source target (values ++ rest) (written ++ more) last ∧
      last.count < target.bits ∧ ∀ leftover, run source target leftover pending rest =
        (finish source target leftover last).map (more ++ ·) := by
  induction rest generalizing values written pending with
  | nil =>
      refine ⟨[], pending, ?_, hcount, ?_⟩
      · rw [List.append_nil, List.append_nil]
        exact h
      · intro leftover
        rw [run]
        cases finish source target leftover pending <;> rfl
  | cons v rest ih =>
      rw [GroupWidth.fits_cons] at hrest
      obtain ⟨hemit, hleft⟩ := reaches_emitted h hcount hrest.1
      obtain ⟨more, last, hlast, hshort, hrun⟩ := ih hemit hleft hrest.2
      refine ⟨(emitted source target pending v).1 ++ more, last, ?_, hshort, ?_⟩
      · rw [List.append_assoc, List.append_assoc] at hlast
        exact hlast
      · intro leftover
        rw [run_cons hrest.1, hrun]
        cases finish source target leftover last with
        | error e => rfl
        | ok tail =>
            show Except.ok ((emitted source target pending v).1 ++ (more ++ tail)) =
              Except.ok ((emitted source target pending v).1 ++ more ++ tail)
            rw [List.append_assoc]

/-! ### What is returned -/

/-- There is no other error. -/
theorem eq_badPadding_of_run {e : KeyError}
    (h : run source target leftover pending values = .error e) : e = .badPadding := by
  induction values generalizing pending with
  | nil =>
      rw [run] at h
      cases leftover with
      | fill => cases h
      | drop =>
          rw [finish] at h
          split at h <;> cases h
          rfl
  | cons v rest ih =>
      by_cases hv : v.toNat < 2 ^ source.bits
      · rw [run_cons hv] at h
        cases htail : run source target leftover
            ⟨(pending.push source target v).window,
              (emitted source target pending v).2⟩ rest with
        | error e' =>
            rw [htail] at h
            cases h
            exact ih htail
        | ok tail =>
            rw [htail] at h
            cases h
      · rw [run, if_pos (by rwa [wide_iff])] at h
        cases h
        rfl

/-- Whether the bits behind the full groups may be dropped: they are fewer than those of a
value, and all of them are zeros. -/
def IsPadding (source target : GroupWidth) (bits : Bits) : Prop :=
  bits.length % target.bits < source.bits ∧ ∀ bit ∈ target.leftover bits, bit = false

instance (source target : GroupWidth) (bits : Bits) :
    Decidable (IsPadding source target bits) :=
  decidable_of_iff (bits.length % target.bits < source.bits ∧
    (target.leftover bits).all (fun bit => !bit) = true) (by simp [IsPadding])

end Regroup

open Regroup

variable {source target : GroupWidth} {values : Bytes}

theorem regroup_eq_badPadding_iff {leftover : Leftover} :
    regroup source target leftover values = .error .badPadding ↔
      ∀ out, regroup source target leftover values ≠ .ok out := by
  constructor
  · intro h out
    rw [h]
    exact nofun
  · intro h
    cases hresult : regroup source target leftover values with
    | ok out => exact absurd hresult (h out)
    | error e => rw [eq_badPadding_of_run hresult]

theorem regroup_of_not_fits {leftover : Leftover} (h : ¬source.Fits values) :
    regroup source target leftover values = .error .badPadding := by
  rw [regroup_eq_badPadding_iff]
  intro out hout
  exact h (regroup_eq_ok_iff.mp hout).1

theorem regroup_fill_eq (h : source.Fits values) :
    regroup source target .fill values = .ok (target.cut (source.spell values)) :=
  regroup_eq_ok_iff.mpr ⟨h, GroupWidth.fits_cut _, GroupWidth.spell_cut _⟩

theorem regroup_drop_eq_ok_iff (h : source.Fits values) {out : Bytes} :
    regroup source target .drop values = .ok out ↔
      IsPadding source target (source.spell values) ∧
        out = target.fullGroups (source.spell values) := by
  obtain ⟨hparts, hlength⟩ := target.spell_fullGroups (source.spell values)
  have hleft := target.length_leftover (source.spell values)
  rw [regroup_eq_ok_iff, IsPadding]
  constructor
  · rintro ⟨-, hout, n, hn, hsource, hspell⟩
    -- The zeros are fewer than a group, so their number is the remainder of the division.
    have hcount : (source.spell values).length = target.bits * out.length + n := by
      rw [hspell, List.length_append, GroupWidth.length_spell, List.length_replicate]
    have hdiv : (source.spell values).length / target.bits = out.length := by
      rw [hcount, Nat.mul_add_div target.bits_pos, Nat.div_eq_of_lt hn, Nat.add_zero]
    have hmod : (source.spell values).length % target.bits = n := by
      rw [hcount, Nat.mul_add_mod, Nat.mod_eq_of_lt hn]
    have hgroups : target.fullGroups (source.spell values) = out := by
      rw [GroupWidth.fullGroups, hdiv, hspell, GroupWidth.cut_spell_append hout,
        List.take_left]
    have hzeros : target.leftover (source.spell values) = List.replicate n false := by
      rw [hgroups] at hparts
      exact List.append_cancel_left (hparts.trans hspell)
    refine ⟨⟨hmod.trans_lt hsource, ?_⟩, hgroups.symm⟩
    intro bit hbit
    rw [hzeros] at hbit
    exact List.eq_of_mem_replicate hbit
  · rintro ⟨⟨hsource, hzeros⟩, rfl⟩
    refine ⟨h, GroupWidth.fits_fullGroups _, _, Nat.mod_lt _ target.bits_pos, hsource, ?_⟩
    rw [← hleft, ← List.eq_replicate_of_mem hzeros]
    exact hparts.symm

/-- Regrouping computes exactly the bits of its values, cut into groups. A value that is too
wide is refused. Otherwise zeros fill up the last group, or what is behind the full groups has
to be padding and is dropped. All values that are returned fit. No state on the way has lost
a pending bit, and no shift overflows in any of them. -/
theorem regrouping_is_exact (source target : GroupWidth) (values : Bytes) :
    (¬source.Fits values →
      ∀ leftover, regroup source target leftover values = .error .badPadding) ∧
    (source.Fits values →
      regroup source target .fill values = .ok (target.cut (source.spell values)) ∧
      (target.cut (source.spell values)).length =
        (source.spell values).length ⌈/⌉ target.bits ∧
      (IsPadding source target (source.spell values) →
        regroup source target .drop values = .ok (target.fullGroups (source.spell values))) ∧
      (¬IsPadding source target (source.spell values) →
        regroup source target .drop values = .error .badPadding) ∧
      (target.fullGroups (source.spell values)).length =
        (source.spell values).length / target.bits ∧
      ∃ written last, Reaches source target values written last ∧ last.count < target.bits ∧
        ∀ leftover, regroup source target leftover values =
          (finish source target leftover last).map (written ++ ·)) ∧
    (∀ leftover out, regroup source target leftover values = .ok out → target.Fits out) ∧
    ∀ read written pending, Reaches source target read written pending →
      target.Fits written ∧
      source.spell read = target.spell written ++
        Bits.ofNat pending.count pending.window.toNat ∧
      IsRoomy source target pending := by
  refine ⟨fun h leftover => regroup_of_not_fits h, ?_, ?_, ?_⟩
  · intro h
    refine ⟨regroup_fill_eq h, GroupWidth.length_cut _, ?_, ?_,
      (target.spell_fullGroups _).2, ?_⟩
    · intro hpadding
      exact (regroup_drop_eq_ok_iff h).mpr ⟨hpadding, rfl⟩
    · intro hpadding
      rw [regroup_eq_badPadding_iff]
      intro out hout
      exact hpadding ((regroup_drop_eq_ok_iff h).mp hout).1
    · exact exists_reaches_of_run .start target.bits_pos h
  · intro leftover out hout
    exact (regroup_eq_ok_iff.mp hout).2.1
  · intro read written pending hreaches
    have hkeeps := keeps_of_reaches hreaches
    exact ⟨hkeeps.fits, hkeeps.spell_eq, hkeeps.isRoomy⟩

/-- A byte in fives, and fives that are no bytes: the leftover of two is not zero, that of
three is longer than a five, and a value is no five at all. -/
theorem regrouping_is_exact_quintet :
    regroup .byte .quintet .fill [0xff] = .ok [31, 28] ∧
      regroup .quintet .byte .drop [31, 28] = .ok [0xff] ∧
      regroup .quintet .byte .drop [0, 1] = .error .badPadding ∧
      regroup .quintet .byte .drop [0, 0, 0] = .error .badPadding ∧
      regroup .quintet .byte .fill [32] = .error .badPadding := by
  have hfill := ((regrouping_is_exact .byte .quintet [0xff]).2.1 (by decide)).1
  have hdrop := ((regrouping_is_exact .quintet .byte [31, 28]).2.1 (by decide)).2.2.1
    (by decide)
  have hset := ((regrouping_is_exact .quintet .byte [0, 1]).2.1 (by decide)).2.2.2.1
    (by decide)
  have hlong := ((regrouping_is_exact .quintet .byte [0, 0, 0]).2.1 (by decide)).2.2.2.1
    (by decide)
  have hwide := (regrouping_is_exact .quintet .byte [32]).1 (by decide) .fill
  refine ⟨hfill.trans (congrArg _ ?_), hdrop.trans (congrArg _ ?_), hset, hlong, hwide⟩
  · decide +kernel
  · decide +kernel

/-! ### Widening and narrowing -/

/-- Strict widening accepts exactly what padded narrowing produces, and gives back what was
narrowed. So no two sequences are widened to the same values. -/
theorem strict_widening_inverts_padded_narrowing {narrow wide : GroupWidth}
    (h : narrow.bits ≤ wide.bits) :
    (∀ values, wide.Fits values →
      (regroup wide narrow .fill values >>= regroup narrow wide .drop) = .ok values) ∧
    (∀ groups values, regroup narrow wide .drop groups = .ok values →
      regroup wide narrow .fill values = .ok groups) ∧
    ∀ groups other values, regroup narrow wide .drop groups = .ok values →
      regroup narrow wide .drop other = .ok values → groups = other := by
  have hback : ∀ groups values, regroup narrow wide .drop groups = .ok values →
      regroup wide narrow .fill values = .ok groups :=
    fun groups values => (regroup_drop_iff_regroup_fill h).mp
  refine ⟨?_, hback, ?_⟩
  · intro values hvalues
    obtain ⟨groups, hgroups⟩ : ∃ groups, regroup wide narrow .fill values = .ok groups :=
      exists_regroup_fill_eq_ok hvalues
    rw [hgroups]
    exact (regroup_drop_iff_regroup_fill h).mpr hgroups
  · intro groups other values hgroups hother
    have hsame := (hback groups values hgroups).symm.trans (hback other values hother)
    exact Except.ok.inj hsame

theorem strict_widening_inverts_padded_narrowing_quintet :
    GroupWidth.quintet.bits ≤ GroupWidth.byte.bits ∧
      (regroup .byte .quintet .fill [0xff] >>= regroup .quintet .byte .drop) = .ok [0xff] ∧
      ∀ groups, regroup .quintet .byte .drop groups = .ok [0xff] → groups = [31, 28] := by
  have hwidths : GroupWidth.quintet.bits ≤ GroupWidth.byte.bits := by decide
  obtain ⟨hround, -, hunique⟩ := strict_widening_inverts_padded_narrowing hwidths
  refine ⟨hwidths, hround _ (GroupWidth.fits_byte _), ?_⟩
  intro groups hgroups
  exact hunique _ _ _ hgroups (by decide +kernel)

theorem spell_replicate_zero (width : GroupWidth) (count : ℕ) :
    width.spell (List.replicate count 0) = List.replicate (count * width.bits) false := by
  induction count with
  | zero => rw [Nat.zero_mul, List.replicate_zero, List.replicate_zero, GroupWidth.spell_nil]
  | succ count ih =>
      have hzero : Bits.ofNat width.bits (0 : UInt8).toNat =
          List.replicate width.bits false := by
        apply Bits.eq_of_toNat_eq
        · rw [Bits.length_ofNat, List.length_replicate]
        · rw [Bits.toNat_ofNat, Bits.toNat_replicate_false]
          exact Nat.zero_mod _
      rw [List.replicate_succ, GroupWidth.spell_cons, ih, hzero,
        List.replicate_append_replicate, Nat.succ_mul, Nat.add_comm]

theorem fits_replicate_zero (width : GroupWidth) (count : ℕ) :
    width.Fits (List.replicate count 0) := by
  intro v hv
  rw [List.eq_of_mem_replicate hv]
  exact Nat.two_pow_pos _

/-- The order of the widths is needed: groups that become wider may take up as zeros what
another value would have been. -/
theorem exists_regroup_fill_eq_of_lt {narrow wide : GroupWidth} (h : narrow.bits < wide.bits) :
    ∃ values other out, values ≠ other ∧ regroup narrow wide .fill values = .ok out ∧
      regroup narrow wide .fill other = .ok out := by
  have hpos := narrow.bits_pos
  refine ⟨List.replicate (wide.bits - 1) 0, List.replicate wide.bits 0,
    List.replicate narrow.bits 0, ?_, ?_, ?_⟩
  · intro hsame
    have hlength := congrArg List.length hsame
    rw [List.length_replicate, List.length_replicate] at hlength
    omega
  · rw [regroup_eq_ok_iff]
    refine ⟨fits_replicate_zero _ _, fits_replicate_zero _ _, narrow.bits, h, ?_⟩
    rw [spell_replicate_zero, spell_replicate_zero, List.replicate_append_replicate]
    congr 1
    rw [← Nat.succ_mul, Nat.succ_eq_add_one, Nat.sub_add_cancel (by omega), Nat.mul_comm]
  · rw [regroup_eq_ok_iff]
    refine ⟨fits_replicate_zero _ _, fits_replicate_zero _ _, 0, wide.bits_pos, ?_⟩
    rw [spell_replicate_zero, spell_replicate_zero, List.replicate_zero, List.append_nil,
      Nat.mul_comm]

end Keyring
