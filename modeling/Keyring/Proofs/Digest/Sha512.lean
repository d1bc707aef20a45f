import Keyring.Digest.Keyed
import Keyring.Digest.Sha512
import Keyring.Proofs.Bytes.Chunks
import Mathlib.Order.Nat

/-!
SHA-512 in terms of words alone, without bytes and without an array for the
schedule: a block is sixteen words, and the schedule is a window of sixteen words
that slides on by one word in each round.

This is the form in which the kernel computes two seeds side by side, those of a phrase
without and with a line feed behind it (`Keyring.Mnemonic.seed_zeroLine_ne`).
-/

namespace Keyring.Sha512

/-! ### The schedule as a window -/

def nextWord (window : List UInt64) : UInt64 :=
  let word (place : ℕ) := window.getD place 0
  let near := rotateRight64 (word 14) 19 ^^^ rotateRight64 (word 14) 61 ^^^ word 14 >>> 6
  let far := rotateRight64 (word 1) 1 ^^^ rotateRight64 (word 1) 8 ^^^ word 1 >>> 7
  near + word 9 + far + word 0

def slide (window : List UInt64) : List UInt64 :=
  window.tail ++ [nextWord window]

def scheduleFrom : ℕ → List UInt64 → List UInt64
  | 0, _ => []
  | count + 1, window => window.getD 0 0 :: scheduleFrom count (slide window)

/-- The rounds for some constants, with the window of the first. -/
def runRounds : List UInt64 → List UInt64 → State → State
  | [], _, s => s
  | k :: constants, window, s =>
    runRounds constants (slide window) (s.round (k + window.getD 0 0))

theorem foldl_round_scheduleFrom (constants window : List UInt64) (s : State) :
    (constants.zipWith (· + ·) (scheduleFrom constants.length window)).foldl State.round s =
      runRounds constants window s := by
  induction constants generalizing window s with
  | nil => rfl
  | cons k constants ih => exact ih (slide window) _

theorem scheduleFrom_eq_take {count : ℕ} {window : List UInt64} (h : count ≤ window.length) :
    scheduleFrom count window = window.take count := by
  induction count generalizing window with
  | zero => rfl
  | succ count ih =>
      cases window with
      | nil => cases h
      | cons w rest =>
          rw [List.length_cons] at h
          have hrest : count ≤ rest.length := Nat.le_of_succ_le_succ h
          rw [scheduleFrom, ih (by simp [slide]; omega), slide, List.tail_cons,
            List.take_append_of_le_length hrest]
          rfl

theorem length_slide {window : List UInt64} (h : window.length = 16) :
    (slide window).length = 16 := by
  simp [slide, h]

theorem toList_extendSchedule {window : List UInt64} (h : window.length = 16)
    (front : List UInt64) (count : ℕ) :
    (extendSchedule count (front ++ window).toArray).toList =
      front ++ scheduleFrom (16 + count) window := by
  induction count generalizing front window with
  | zero =>
      rw [extendSchedule, scheduleFrom_eq_take h.ge, ← h, List.take_length]
  | succ count ih =>
      -- The next word depends on the last sixteen only, which are the window.
      have hback : ∀ distance, 0 < distance → distance ≤ 16 →
          (front ++ window).toArray.getD ((front ++ window).toArray.size - distance) 0 =
            window.getD (16 - distance) 0 := by
        intro distance hpos hle
        have hindex : front.length + 16 - distance = front.length + (16 - distance) := by omega
        simp [h, hindex, List.getElem?_append_right]
      have hnext : extendSchedule (count + 1) (front ++ window).toArray =
          extendSchedule count ((front ++ window).toArray.push (nextWord window)) := by
        rw [extendSchedule]
        simp only [hback 2 (by omega) (by omega), hback 7 (by omega) (by omega),
          hback 15 (by omega) (by omega), hback 16 (by omega) (by omega)]
        rfl
      have hpush : (front ++ window).toArray.push (nextWord window) =
          (front ++ [window.getD 0 0] ++ slide window).toArray := by
        cases window with
        | nil => cases h
        | cons w rest => simp [slide]
      rw [hnext, hpush, ih (length_slide h), List.append_assoc]
      rfl

def compressWords (s : State) (block : List UInt64) : State :=
  s.add (runRounds roundConstants block s)

theorem compress_eq {block : Bytes} {words : List UInt64} (s : State)
    (hwords : wordsOfBytes64 block = words) (hlength : words.length = 16) :
    compress s block = compressWords s words := by
  have hschedule := toList_extendSchedule hlength [] 64
  rw [List.nil_append, List.nil_append] at hschedule
  rw [compress, compressWords, hwords, ← foldl_round_scheduleFrom]
  simp only [hschedule]
  rfl

/-! ### Words and bytes -/

/-- The bits of one byte of a word, moved back to its place. -/
theorem testBit_byteOfWord64 (word : UInt64) {shift : UInt64}
    (hshift : shift.toNat < 64) {i : ℕ} (hi : i < 64) :
    ((word >>> shift).toUInt8.toUInt64 <<< shift).toNat.testBit i =
      (decide (shift.toNat ≤ i ∧ i < shift.toNat + 8) && word.toNat.testBit i) := by
  rw [UInt64.toNat_shiftLeft, Nat.mod_eq_of_lt hshift, Nat.testBit_mod_two_pow,
    Nat.testBit_shiftLeft, UInt8.toNat_toUInt64, UInt64.toNat_toUInt8, Nat.testBit_mod_two_pow,
    UInt64.toNat_shiftRight, Nat.mod_eq_of_lt hshift, Nat.testBit_shiftRight]
  by_cases hfirst : shift.toNat ≤ i
  · have hlast : i - shift.toNat < 8 ↔ i < shift.toNat + 8 := by omega
    simp [hi, hfirst, hlast, Nat.add_sub_cancel' hfirst]
  · simp [hfirst]

theorem wordsOfBytes64_bytesOfWord64 (word : UInt64) (rest : Bytes) :
    wordsOfBytes64 (bytesOfWord64 word ++ rest) = word :: wordsOfBytes64 rest := by
  refine congrArg (· :: wordsOfBytes64 rest) ?_
  rw [← UInt64.toNat_inj]
  apply Nat.eq_of_testBit_eq
  intro i
  by_cases hi : i < 64
  · have hbyte {shift : UInt64} (h : shift.toNat < 64) := testBit_byteOfWord64 word h hi
    have hlowest : word.toUInt8.toUInt64.toNat.testBit i =
        (decide (i < 8) && word.toNat.testBit i) := by
      rw [UInt8.toNat_toUInt64, UInt64.toNat_toUInt8, Nat.testBit_mod_two_pow]
    simp only [UInt64.toNat_or, Nat.testBit_or]
    rw [hlowest, hbyte (by decide), hbyte (by decide), hbyte (by decide), hbyte (by decide),
      hbyte (by decide), hbyte (by decide), hbyte (by decide)]
    cases word.toNat.testBit i
    · simp
    · simp
      omega
  · have hlarge (x : UInt64) : x.toNat.testBit i = false :=
      Nat.testBit_lt_two_pow
        (x.toNat_lt.trans_le (Nat.pow_le_pow_right (by omega) (Nat.not_lt.mp hi)))
    rw [hlarge, hlarge]

theorem bytesOfWord64_injective {v w : UInt64} (h : bytesOfWord64 v = bytesOfWord64 w) :
    v = w := by
  have hv := wordsOfBytes64_bytesOfWord64 v []
  rw [h, wordsOfBytes64_bytesOfWord64] at hv
  exact (List.cons.inj hv).1.symm

theorem wordsOfBytes64_flatMap (words : List UInt64) :
    wordsOfBytes64 (words.flatMap bytesOfWord64) = words := by
  induction words with
  | nil => rfl
  | cons word rest ih => rw [List.flatMap_cons, wordsOfBytes64_bytesOfWord64, ih]

theorem length_flatMap_bytesOfWord64 (words : List UInt64) :
    (words.flatMap bytesOfWord64).length = 8 * words.length := by
  induction words with
  | nil => rfl
  | cons word rest ih =>
      rw [List.flatMap_cons, List.length_append, ih, length_bytesOfWord64, List.length_cons]
      omega

theorem bytesOfWord64_xor (v w : UInt64) :
    bytesOfWord64 (v ^^^ w) = (bytesOfWord64 v).xor (bytesOfWord64 w) := by
  simp [bytesOfWord64, Bytes.xor, UInt64.shiftRight_xor]

def State.bytes (s : State) : Bytes :=
  s.words.flatMap bytesOfWord64

theorem State.take_bytes (s : State) : s.bytes.take 8 = bytesOfWord64 s.a :=
  rfl

/-- A message that is completed to two blocks. -/
theorem bytes_digest {message : Bytes} {first second : List UInt64}
    (hfirst : first.length = 16) (hsecond : second.length = 16)
    (h : message ++ HashFunction.completion 128 message.length
        (Bytes.ofNat 16 (8 * message.length)) = (first ++ second).flatMap bytesOfWord64) :
    (digest message).bytes = (compressWords (compressWords .initial first) second).bytes := by
  have hfront : (first.flatMap bytesOfWord64).length = 128 := by
    rw [length_flatMap_bytesOfWord64, hfirst]
  have hback : (second.flatMap bytesOfWord64).length = 128 := by
    rw [length_flatMap_bytesOfWord64, hsecond]
  have hchunks : Bytes.chunks 128 ((first ++ second).flatMap bytesOfWord64) =
      [first.flatMap bytesOfWord64, second.flatMap bytesOfWord64] := by
    rw [List.flatMap_append, Bytes.chunks_append (by decide) hfront,
      ← List.append_nil (second.flatMap _), Bytes.chunks_append (by decide) hback,
      Bytes.chunks_nil, List.append_nil]
  simp only [digest, h, hchunks, List.foldl_cons, List.foldl_nil]
  rw [compress_eq _ (wordsOfBytes64_flatMap first) hfirst,
    compress_eq _ (wordsOfBytes64_flatMap second) hsecond]
  rfl

/-! ### Keyed digests -/

def closing : List UInt64 := [0x8000000000000000, 0, 0, 0, 0, 0, 0, 1536]

theorem completion_closing :
    HashFunction.completion 128 192 (Bytes.ofNat 16 (8 * 192)) =
      closing.flatMap bytesOfWord64 := by
  decide

/-- A digest keyed by the two disguises of a key block, each given by the state after
it, of a message whose last block is given. -/
def keyedState (inner outer : State) (last : List UInt64) : State :=
  compressWords outer ((compressWords inner last).words ++ closing)

structure KeyWords (block : Bytes) (inner outer : List UInt64) : Prop where
  length_inner : inner.length = 16
  length_outer : outer.length = 16
  map_inner : block.map (· ^^^ 0x36) = inner.flatMap bytesOfWord64
  map_outer : block.map (· ^^^ 0x5c) = outer.flatMap bytesOfWord64

variable {block : Bytes} {inner outer : List UInt64}

theorem bytes_digest_append {front : List UInt64} (hfront : front.length = 16) (s : State) :
    (digest (front.flatMap bytesOfWord64 ++ s.bytes)).bytes =
      (compressWords (compressWords .initial front) (s.words ++ closing)).bytes := by
  refine bytes_digest hfront rfl ?_
  have hlength : (front.flatMap bytesOfWord64 ++ s.bytes).length = 192 := by
    rw [List.length_append, length_flatMap_bytesOfWord64, hfront]
    rfl
  rw [hlength, completion_closing, List.append_assoc, List.flatMap_append, List.flatMap_append]
  rfl

/-- The digest of a message that ends in its second block. -/
theorem bytes_keyedByBlock (h : KeyWords block inner outer) {message : Bytes}
    {last : List UInt64} (hlast : last.length = 16)
    (hmessage : message ++ HashFunction.completion 128 (128 + message.length)
      (Bytes.ofNat 16 (8 * (128 + message.length))) = last.flatMap bytesOfWord64) :
    (function.keyedByBlock block message).bytes =
      (keyedState (compressWords .initial inner)
        (compressWords .initial outer) last).bytes := by
  have hinner : (digest (block.map (· ^^^ 0x36) ++ message)).bytes =
      (compressWords (compressWords .initial inner) last).bytes := by
    refine bytes_digest h.length_inner hlast ?_
    rw [h.map_inner, List.length_append, length_flatMap_bytesOfWord64, h.length_inner,
      List.append_assoc, hmessage, List.flatMap_append]
  change (digest (block.map (· ^^^ 0x5c) ++
    (digest (block.map (· ^^^ 0x36) ++ message)).bytes)).bytes = _
  rw [hinner, h.map_outer, bytes_digest_append h.length_outer]
  rfl

/-! ### Stretching -/

/-- Keyed digests of keyed digests, each together with the first word of the sum so
far. -/
def iterateState (inner outer : State) : ℕ → State → UInt64 → State × UInt64
  | 0, last, sum => (last, sum)
  | rounds + 1, last, sum =>
    let next := keyedState inner outer (last.words ++ closing)
    iterateState inner outer rounds next (sum ^^^ next.a)

theorem take_iterateKeyed (h : KeyWords block inner outer) (rounds : ℕ) {last sum : Block 64}
    {s : State} {w : UInt64} (hlast : last.bytes = s.bytes)
    (hsum : sum.bytes.take 8 = bytesOfWord64 w) :
    (function.iterateKeyed block rounds last sum).bytes.take 8 =
      bytesOfWord64 (iterateState (compressWords .initial inner) (compressWords .initial outer)
        rounds s w).2 := by
  induction rounds generalizing last sum s w with
  | zero => exact hsum
  | succ rounds ih =>
      have hnext : (function.keyedByBlock block last.bytes).bytes =
          (keyedState (compressWords .initial inner) (compressWords .initial outer)
            (s.words ++ closing)).bytes := by
        refine bytes_keyedByBlock h (by rfl) ?_
        rw [last.length_bytes, completion_closing, hlast, List.flatMap_append]
        rfl
      rw [HashFunction.iterateKeyed, iterateState]
      refine ih hnext ?_
      change (List.zipWith _ sum.bytes (function.keyedByBlock block last.bytes).bytes).take 8 =
        _
      rw [List.take_zipWith, hsum, hnext, State.take_bytes, bytesOfWord64_xor]
      rfl

/-- The first word of stretched key material. -/
theorem take_stretch {passphrase salt : Bytes} {last : List UInt64}
    (h : KeyWords (function.keyBlock passphrase) inner outer) (hlast : last.length = 16)
    (hsalt : salt ++ Bytes.ofNat 4 1 ++ HashFunction.completion 128 (128 + (salt.length + 4))
      (Bytes.ofNat 16 (8 * (128 + (salt.length + 4)))) = last.flatMap bytesOfWord64)
        (rounds : ℕ) :
    (function.stretch passphrase salt rounds).bytes.take 8 =
      let i := compressWords .initial inner
      let o := compressWords .initial outer
      bytesOfWord64 (iterateState i o (rounds - 1) (keyedState i o last)
        (keyedState i o last).a).2 := by
  have hfirst : (function.keyedByBlock (function.keyBlock passphrase)
      (salt ++ Bytes.ofNat 4 1)).bytes = _ :=
    bytes_keyedByBlock h hlast (by simpa using hsalt)
  refine take_iterateKeyed h _ hfirst ?_
  rw [hfirst, State.take_bytes]

end Keyring.Sha512
