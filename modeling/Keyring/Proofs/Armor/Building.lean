import Keyring.Proofs.Armor.Envelope

/-!
Envelopes that are built part by part.

Headers are set and bytes are appended in any order. Setting a header again replaces its
value, and bytes go behind those that are there, so what is built is known by the last
value of each key and by all bytes in order. If the headers are plain, the text of the
envelope is read back to that.
-/

namespace Keyring.Envelope

open Armor

inductive Part where
  | header (key value : String)
  | body (bytes : Bytes)
  deriving DecidableEq

namespace Part

def addTo (envelope : Envelope) : Part → Envelope
  | header key value => envelope.withHeader key value
  | body bytes => envelope.append bytes

def setting? : Part → Option (String × String)
  | header key value => some (key, value)
  | body _ => none

def bytes : Part → Bytes
  | header _ _ => []
  | body bytes => bytes

end Part

def build (parts : List Part) : Envelope :=
  parts.foldl Part.addTo empty

variable {parts : List Part}

theorem foldl_addTo (envelope : Envelope) (parts : List Part) :
    parts.foldl Part.addTo envelope =
      ⟨envelope.headers.insertAll (parts.filterMap Part.setting?),
        envelope.body ++ parts.flatMap Part.bytes⟩ := by
  induction parts generalizing envelope with
  | nil =>
      rw [List.filterMap_nil, List.flatMap_nil, List.append_nil]
      rfl
  | cons part rest ih =>
      rw [List.foldl_cons, ih]
      cases part with
      | header key value => rfl
      | body bytes =>
          rw [List.flatMap_cons, ← List.append_assoc]
          rfl

theorem build_eq (parts : List Part) :
    build parts =
      ⟨Headers.empty.insertAll (parts.filterMap Part.setting?), parts.flatMap Part.bytes⟩ :=
  foldl_addTo empty parts

theorem setting_mem_iff {key value : String} :
    (key, value) ∈ parts.filterMap Part.setting? ↔ Part.header key value ∈ parts := by
  rw [List.mem_filterMap]
  constructor
  · rintro ⟨part, hpart, hsetting⟩
    cases part with
    | header key' value' =>
        cases hsetting
        exact hpart
    | body bytes => cases hsetting
  · intro h
    exact ⟨_, h, rfl⟩

/-- All headers of what is built were set. -/
theorem header_mem_of_mem_build {entry : String × String}
    (h : entry ∈ (build parts).headers.entries) : Part.header entry.1 entry.2 ∈ parts := by
  rw [build_eq] at h
  rcases Headers.mem_insertAll h with hset | hempty
  · exact setting_mem_iff.mp hset
  · cases hempty

/-- What is built from plain headers and any bytes, in any order, is read back from its
text. It has the last value of each key and all bytes in their order. -/
theorem built_envelope_is_read_back
    (h : ∀ key value, Part.header key value ∈ parts → IsPlain key value) :
    parse (build parts).render = .ok (build parts) ∧
      (∀ key, (build parts).headers.get? key =
        Headers.lastValue? (parts.filterMap Part.setting?) key) ∧
      (build parts).body = parts.flatMap Part.bytes := by
  refine ⟨?_, ?_, ?_⟩
  · apply parse_render
    intro entry hentry
    exact h entry.1 entry.2 (header_mem_of_mem_build hentry)
  · apply Headers.eq_insertAll_empty_iff.mp
    rw [build_eq]
  · rw [build_eq]

/-- A header that is set twice, one whose value looks like an end line behind a carriage
return, and one without key and value, with bytes between them. -/
def mixedParts : List Part :=
  [.header "b" "first", .body [1], .header "" "", .body [],
    .header "a" "x:\r-----END TENDERMINT PRIVATE KEY-----", .body [2, 3], .header "b" "second"]

theorem built_envelope_is_read_back_mixed :
    ∃ envelope, parse (build mixedParts).render = .ok envelope ∧
      envelope.headers.get? "b" = some "second" ∧ envelope.headers.get? "" = some "" ∧
      envelope.headers.get? "c" = none ∧ envelope.body = [1, 2, 3] := by
  have hplain : ∀ key value, Part.header key value ∈ mixedParts → IsPlain key value := by
    intro key value hmem
    simp only [mixedParts, List.mem_cons, List.not_mem_nil, or_false, Part.header.injEq,
      reduceCtorEq, false_or] at hmem
    rcases hmem with ⟨rfl, rfl⟩ | ⟨rfl, rfl⟩ | ⟨rfl, rfl⟩ | ⟨rfl, rfl⟩ <;>
      exact ⟨by decide, by decide, by decide, by decide, by decide⟩
  obtain ⟨hread, hheaders, hbody⟩ := built_envelope_is_read_back hplain
  exact ⟨_, hread, hheaders "b", hheaders "", hheaders "c", hbody⟩

end Keyring.Envelope
