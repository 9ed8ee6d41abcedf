import Mathlib.Data.List.Dedup
import Mathlib.Data.List.Induction
import Peripheral.Proofs.Device.Registers
import Peripheral.Proofs.Device.Wire

/-!
# The memory of a register file

A register file in use gets the bytes of requests and ticks, in any order. What becomes of it is what the writes among them
make of it, one after the other (`run_eq_foldl_set`). So at every moment it holds at each address what the latest write to
exactly this address put there, a read tells that or the mark for what was never written, and nothing but a write leaves a
trace (`remembers_run`). A write that puts the mark itself at an address counts as any other.
-/

namespace Peripheral

namespace RegisterFile

/-- Something that happens to a register file. -/
inductive Action
  /-- The bytes of a request arrive. -/
  | request (bytes : Bytes)
  | tick (g : Rng)

/-- The register file after something has happened to it. -/
def perform (r : RegisterFile) : Action → RegisterFile
  | .request bytes => (executeBytes r bytes).2
  | .tick g => (Device.tick r g).2.1

/-- The register file after one thing has happened after the other. -/
def run (r : RegisterFile) (actions : List Action) : RegisterFile := actions.foldl perform r

/-- What is written, and where, if it is a whole request to write that arrives. -/
def Action.write? : Action → Option (UInt32 × UInt32)
  | .request bytes =>
    if Frame.size ≤ bytes.length ∧ commandCode bytes = 2 then some (registerAddress bytes, registerValue bytes) else none
  | .tick _ => none

/-- The writes among what happens, in order: addresses with words. -/
def writes (actions : List Action) : List (UInt32 × UInt32) := actions.filterMap Action.write?

/-- The word of the latest write to an address. -/
def latest? (ws : List (UInt32 × UInt32)) (a : UInt32) : Option UInt32 := (ws.filter (·.1 == a)).getLast?.map (·.2)

/-- The addresses that were written, each once. -/
def keys (r : RegisterFile) : List UInt32 := r.cells.map (·.1)

/-! ## What one write does -/

/-- The latest value at an address is the one of the last write, if that is to this address. -/
theorem latest?_concat (ws : List (UInt32 × UInt32)) (w : UInt32 × UInt32) (a : UInt32) :
    latest? (ws ++ [w]) a = if w.1 = a then some w.2 else latest? ws a := by
  unfold latest?
  rw [List.filter_append]
  by_cases hw : w.1 = a
  · rw [List.filter_cons_of_pos (by simpa using hw), List.filter_nil, List.getLast?_concat, if_pos hw]
    rfl
  · rw [List.filter_cons_of_neg (by simpa using hw), List.filter_nil, List.append_nil, if_neg hw]

/-- There is a latest value at an address exactly if it was written. -/
theorem latest?_isSome_iff (ws : List (UInt32 × UInt32)) (a : UInt32) :
    (latest? ws a).isSome = true ↔ a ∈ ws.map (·.1) := by
  induction ws using List.reverseRecOn with
  | nil => simp [latest?]
  | append_singleton ws w ih =>
    rw [latest?_concat, List.map_append, List.mem_append, ← ih]
    by_cases hw : w.1 = a
    · simp [hw]
    · simp [hw, Ne.symm hw]

/-- The addresses of a register file are those at which there is a value. -/
theorem mem_keys_iff (r : RegisterFile) (a : UInt32) : a ∈ r.keys ↔ (r.get? a).isSome = true := by
  rw [get?, List.lookup_isSome_iff, keys, List.mem_map]
  exact exists_congr fun c => and_congr_right fun _ => eq_comm.trans beq_iff_eq.symm

/-- No address comes twice after a write. -/
theorem nodup_keys_set {r : RegisterFile} (h : r.keys.Nodup) (a v : UInt32) : (r.set a v).keys.Nodup := by
  rw [keys, set, List.map_cons, List.nodup_cons]
  constructor
  · intro hmem
    obtain ⟨c, hc, rfl⟩ := List.mem_map.1 hmem
    simpa using List.of_mem_filter hc
  · exact h.sublist (List.filter_sublist.map _)

/-! ## What happens comes down to its writes -/

/-- Whatever happens to a register file, nothing but a write changes it. -/
theorem perform_eq (r : RegisterFile) (action : Action) :
    r.perform action = match action.write? with
      | some w => r.set w.1 w.2
      | none => r := by
  cases action with
  | tick g => rfl
  | request bytes =>
    rw [perform, executeBytes, Action.write?]
    by_cases hlen : Frame.size ≤ bytes.length
    · have hcode : (Frame.ofBytes bytes).command = .write ↔ commandCode bytes = 2 := Command.ofCode_eq_iff rfl
      rw [Frame.decode_of_le hlen]
      dsimp only
      by_cases hc : commandCode bytes = 2
      · rw [if_pos ⟨hlen, hc⟩, execute_write r (hcode.2 hc), value_ofBytes bytes hlen]
        rfl
      · rw [if_neg fun h => hc h.2]
        exact execute_of_not_write r fun h => hc (hcode.1 h)
    · rw [Frame.decode_of_lt (Nat.lt_of_not_le hlen), if_neg fun h => hlen h.1]

/-- Of all that happens, only the writes count. -/
theorem run_eq_foldl_set (r : RegisterFile) (actions : List Action) :
    r.run actions = (writes actions).foldl (fun r w => r.set w.1 w.2) r := by
  rw [writes, List.foldl_filterMap, run]
  congr 1
  funext r action
  rw [perform_eq]
  cases action.write? <;> rfl

/-- What writes make of an empty register file: at each address it holds the latest word, and no address twice. -/
theorem get?_foldl_set (id : UInt32) (ws : List (UInt32 × UInt32)) :
    (∀ a, (ws.foldl (fun r w => r.set w.1 w.2) (empty id)).get? a = latest? ws a) ∧
      (ws.foldl (fun r w => r.set w.1 w.2) (empty id)).keys.Nodup := by
  induction ws using List.reverseRecOn with
  | nil => exact ⟨fun _ => rfl, List.nodup_nil⟩
  | append_singleton ws w ih =>
    obtain ⟨hget, hnodup⟩ := ih
    rw [List.foldl_append]
    refine ⟨fun a => ?_, nodup_keys_set hnodup _ _⟩
    rw [latest?_concat]
    by_cases hw : w.1 = a
    · subst hw
      rw [if_pos rfl]
      exact get?_set_self _ _ _
    · rw [if_neg hw, ← hget a]
      exact get?_set_of_ne _ _ (Ne.symm hw)

/-! ## What is remembered -/

/-- The bytes of a request to read are answered with success and with the word that the register file holds. -/
theorem executeBytes_read (r : RegisterFile) {bytes : Bytes} (hlen : Frame.size ≤ bytes.length)
    (hread : commandCode bytes = 1) :
    ∃ answer, executeBytes r bytes = (.ok answer, r) ∧ outcomeCode answer = 0 ∧
      (answer.drop 20).take 4 = wordBytes (r.get (registerAddress bytes)) := by
  obtain ⟨answer, after, hx, hverdict⟩ := answers_of_le r hlen
  have hmapped : outcomeCode answer ≠ 3 := fun h => by
    obtain ⟨-, e, he⟩ := hverdict.unmapped_iff.1 h
    nomatch he
  have haccepted : outcomeCode answer ≠ 1 := fun h => by
    have herror := hverdict.error_iff.1 h
    simp [hread] at herror
  have hsuccess : outcomeCode answer = 0 := hverdict.success_else hmapped haccepted
  have hsame : after = r := by
    rw [hverdict.carried_out hsuccess, Device.carriedOut, if_pos hread]
    rfl
  refine ⟨answer, hsame ▸ hx, hsuccess, ?_⟩
  rw [hverdict.value_eq, Device.returned, if_pos hread]
  rfl

/-- A register file knows of writes what they leave behind, and of nothing else. -/
structure Remembers (r : RegisterFile) (ws : List (UInt32 × UInt32)) : Prop where
  /-- A read of an address is answered with the word of the latest write to it, or with the mark if there was none. -/
  read : ∀ bytes, Frame.size ≤ bytes.length → commandCode bytes = 1 →
    ∃ answer, executeBytes r bytes = (.ok answer, r) ∧ outcomeCode answer = 0 ∧
      (answer.drop 20).take 4 = wordBytes ((latest? ws (registerAddress bytes)).getD 0xDEADBEEF)
  /-- The addresses that count as written are those of the writes. -/
  contains_iff : ∀ a, r.contains a = true ↔ ∃ v, (a, v) ∈ ws
  /-- The size is the number of different addresses that were written. -/
  size_eq : r.size = (ws.map (·.1)).dedup.length
  /-- What writes nothing changes nothing. -/
  unchanged : ∀ action, action.write? = none → r.perform action = r

/-- At every moment of its use, a register file that was new remembers the writes so far, and nothing else. -/
theorem remembers_run (id : UInt32) (past : List Action) : ((empty id).run past).Remembers (writes past) := by
  obtain ⟨hget, hnodup⟩ := get?_foldl_set id (writes past)
  rw [← run_eq_foldl_set] at hget hnodup
  generalize (empty id).run past = r at hget hnodup
  have hwritten : ∀ a, (r.get? a).isSome = true ↔ a ∈ (writes past).map (·.1) := fun a => by
    rw [hget, latest?_isSome_iff]
  refine ⟨fun bytes hlen hread => ?_, fun a => ?_, ?_, fun action hnone => ?_⟩
  · rw [← hget]
    exact executeBytes_read r hlen hread
  · rw [contains, hwritten, List.mem_map]
    exact ⟨fun ⟨⟨_, v⟩, hw, ha⟩ => ⟨v, ha ▸ hw⟩, fun ⟨v, hw⟩ => ⟨(a, v), hw, rfl⟩⟩
  · have hsame : r.keys.Perm ((writes past).map (·.1)).dedup := by
      rw [List.perm_ext_iff_of_nodup hnodup (List.nodup_dedup _)]
      intro a
      rw [mem_keys_iff, hwritten, List.mem_dedup]
    rw [← hsame.length_eq, keys, List.length_map, size]
  · rw [perform_eq, hnone]

/-- The mark for what was never written is a word like any other. -/
example : ((empty 1).run [.request (Frame.write 1 4 0xDEADBEEF).encode]).contains 4 = true := by decide +kernel

end RegisterFile

end Peripheral
