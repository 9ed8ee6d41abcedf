import Peripheral.Device.Execute
import Peripheral.Device.RegisterFile

/-!
# Requests to a register file

A register file holds at every address what was put there last, and a request other than a write leaves it as it is.
-/

namespace Peripheral

/-- The register value that a frame was given is the one that is read from it. -/
theorem Frame.value_withValue (f : Frame) (v : UInt32) : (f.withValue v).value = v := by
  have hlen : (wordBytes v ++ f.payload.toList.drop (wordBytes v).length).length = 256 := by
    rw [List.length_append, List.length_drop, length_wordBytes, Payload.length_toList]
  show wordOf (Payload.ofBytes (wordBytes v ++ f.payload.toList.drop (wordBytes v).length)).toList = v
  rw [Payload.toList_ofBytes _ hlen, wordOf_wordBytes_append]

/-- The request puts a word at an address. -/
def Frame.Writes (f : Frame) (a : UInt32) : Prop := f.command = .write ∧ f.address = a

namespace RegisterFile

/-- What is written to an address is there. -/
theorem get?_set_self (r : RegisterFile) (a v : UInt32) : (r.set a v).get? a = some v :=
  List.lookup_cons_self

/-- An entry is found although those of another address are taken out. -/
theorem lookup_filter_of_ne {cells : List (UInt32 × UInt32)} {a b : UInt32} (hne : b ≠ a) :
    (cells.filter fun c => c.1 != a).lookup b = cells.lookup b := by
  induction cells with
  | nil => rfl
  | cons c cells ih =>
    obtain ⟨x, v⟩ := c
    by_cases hx : x = a
    · subst hx
      rw [List.filter_cons_of_neg (by simp), ih, List.lookup_cons, beq_false_of_ne hne]
    · rw [List.filter_cons_of_pos (by simpa using hx), List.lookup_cons, List.lookup_cons, ih]

/-- A write leaves the other addresses as they are. -/
theorem get?_set_of_ne (r : RegisterFile) {a b : UInt32} (v : UInt32) (hne : b ≠ a) :
    (r.set a v).get? b = r.get? b := by
  unfold set get?
  rw [List.lookup_cons, beq_false_of_ne hne]
  exact lookup_filter_of_ne hne

theorem get_set_self (r : RegisterFile) (a v : UInt32) : (r.set a v).get a = v := by
  rw [get, get?_set_self, Option.getD_some]

theorem get_set_of_ne (r : RegisterFile) {a b : UInt32} (v : UInt32) (hne : b ≠ a) : (r.set a v).get b = r.get b := by
  rw [get, get?_set_of_ne r v hne, get]

/-- A read is answered with the value at its address, and changes nothing. -/
theorem execute_read (r : RegisterFile) {request : Frame} (hc : request.command = .read) :
    execute r request = ((request.reply .success).withValue (r.get request.address), r) := by
  unfold execute
  rw [hc]
  rfl

/-- A write is answered with success, and its value is there. -/
theorem execute_write (r : RegisterFile) {request : Frame} (hc : request.command = .write) :
    execute r request = (request.reply .success, r.set request.address request.value) := by
  unfold execute
  rw [hc]
  rfl

/-- No request but a write changes anything. -/
theorem execute_of_not_write (r : RegisterFile) {request : Frame} (hc : request.command ≠ .write) :
    (execute r request).2 = r := by
  unfold execute
  cases hk : request.command with
  | write => exact absurd hk hc
  | read | init | deinit | interrupt | unknown => rfl

/-- A request that writes an address decides what is there. -/
theorem get_execute_of_writes (r : RegisterFile) {request : Frame} {a : UInt32} (hw : request.Writes a) :
    (execute r request).2.get a = request.value := by
  obtain ⟨hc, rfl⟩ := hw
  rw [execute_write r hc]
  exact get_set_self _ _ _

/-- A request that does not write an address changes nothing there. -/
theorem get_execute_of_not_writes (r : RegisterFile) {request : Frame} {a : UInt32} (hw : ¬request.Writes a) :
    (execute r request).2.get a = r.get a := by
  by_cases hc : request.command = .write
  · rw [execute_write r hc]
    exact get_set_of_ne _ _ fun ha => hw ⟨hc, ha.symm⟩
  · rw [execute_of_not_write r hc]

end RegisterFile

end Peripheral
