import Keyring.Bytes.Basic
import Keyring.Error

/-!
Writers, which take bytes in portions of their own choice and may fail, and one that
takes a limited number of bytes.
-/

namespace Keyring

/-- What bytes can be offered to. It takes some of them from the front and says how
many, or fails. What it keeps back it hands on when it is flushed. An offer that was
only interrupted is made again and is no fault. -/
class Writer (σ : Type) where
  offer : σ → Bytes → σ × Except StorageFault Nat
  flush : σ → σ × Except StorageFault Unit

/-- Writes all bytes, offering the rest until nothing is left or the writer fails. A
writer that takes nothing of a rest is full. -/
def Writer.writeAll {σ : Type} [Writer σ] (writer : σ) (bytes : Bytes) :
    σ × Except StorageFault Unit :=
  if bytes = [] then (writer, .ok ())
  else
    match offer writer bytes with
    | (next, .error fault) => (next, .error fault)
    | (next, .ok count) =>
      if count = 0 then (next, .error .full)
      else writeAll next (bytes.drop count)
termination_by bytes.length
decreasing_by
  have : bytes.length ≠ 0 := by simp_all
  simp only [List.length_drop]
  omega

/-- What a writer has taken, and how many bytes it still takes. -/
structure Sink where
  capacity : Nat
  written : Bytes
  deriving DecidableEq

/-- A sink takes as many bytes as it can, and keeps nothing back. -/
instance : Writer Sink where
  offer sink bytes :=
    (⟨sink.capacity - bytes.length, sink.written ++ bytes.take sink.capacity⟩,
      .ok (min sink.capacity bytes.length))
  flush sink := (sink, .ok ())

end Keyring
