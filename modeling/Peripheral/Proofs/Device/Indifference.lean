import Peripheral.Device.Execute
import Peripheral.Device.Model
import Peripheral.Proofs.Frame.RoundTrip
import Peripheral.Proofs.Trace

/-!
# What a device does not look at

Of a request, a device sees the command, the address and, for a write, the register value. The number of the device, the
length, the outcome and the rest of the payload reach neither its state nor what it answers: requests that ask the same
(`Frame.AsksSame`) are carried out alike, one by one and one after the other (`executions_alike`).
-/

namespace Peripheral

/-- Two requests ask the same: one command, one address and, if they write, one register value. -/
structure Frame.AsksSame (f f' : Frame) : Prop where
  command_eq : f.command = f'.command
  address_eq : f.address = f'.address
  word_eq : f.command = .write → f.payload.toList.take 4 = f'.payload.toList.take 4

/-- Two answers say the same, whatever their headers repeat of the requests. -/
structure Frame.SaysSame (f f' : Frame) : Prop where
  outcome_eq : f.outcome = f'.outcome
  payload_eq : f.payload = f'.payload

namespace Frame

/-- The register value is in the first four bytes of the payload. -/
theorem value_congr {f f' : Frame} (h : f.payload.toList.take 4 = f'.payload.toList.take 4) : f.value = f'.value := by
  have hfour (f : Frame) : f.value = wordOf (f.payload.toList.take 4) := (wordOf_take (Nat.le_refl 4)).symm
  rw [hfour f, hfour f', h]

end Frame

namespace Model

/-- An initialisation does not ask for which device it was meant. -/
theorem init_eq (d : Model) (id id' : UInt32) : Device.init d id = Device.init d id' := by
  cases d with
  | registers r => rfl
  | uart u => rfl

/-- Nor does a release. -/
theorem deinit_eq (d : Model) (id id' : UInt32) : Device.deinit d id = Device.deinit d id' := by
  cases d with
  | registers r => rfl
  | uart u => rfl

end Model

/-- Requests that ask the same get the same outcome and the same payload, and leave the device in the same state. -/
theorem execute_alike (d : Model) {f f' : Frame} (h : f.AsksSame f') :
    (execute d f).1.SaysSame (execute d f').1 ∧ (execute d f).2 = (execute d f').2 := by
  unfold execute
  rw [← h.command_eq, ← h.address_eq]
  cases hc : f.command with
  | read =>
    rcases Device.read d f.address with ⟨_ | v, after⟩
    · exact ⟨⟨rfl, rfl⟩, rfl⟩
    · exact ⟨⟨rfl, rfl⟩, rfl⟩
  | write =>
    dsimp only
    rw [← Frame.value_congr (h.word_eq hc)]
    rcases Device.write d f.address f.value with ⟨_ | _, after⟩
    · exact ⟨⟨rfl, rfl⟩, rfl⟩
    · exact ⟨⟨rfl, rfl⟩, rfl⟩
  | init => exact ⟨⟨rfl, rfl⟩, Model.init_eq d _ _⟩
  | deinit => exact ⟨⟨rfl, rfl⟩, Model.deinit_eq d _ _⟩
  | interrupt => exact ⟨⟨rfl, rfl⟩, rfl⟩
  | unknown c => exact ⟨⟨rfl, rfl⟩, rfl⟩

/-- Of two runs of requests that ask the same pair by pair, each pair is answered with the same outcome and the same payload,
and leaves the device in the same state: whatever their headers and the rest of their payloads say, nobody can tell from the
device or from the answers which run it was. -/
theorem executions_alike (d : Model) {requests requests' : List Frame}
    (h : List.Forall₂ Frame.AsksSame requests requests') :
    List.Forall₂ (fun x y => x.output.SaysSame y.output ∧ x.after = y.after)
      (trace execute d requests) (trace execute d requests') := by
  refine forall₂_trace (R := Eq) (Q := fun _ _ => Frame.SaysSame) ?_ rfl h
  rintro d _ f f' rfl hf
  exact execute_alike d hf

/-- Say, a write to the data register of a UART and a write of the same byte that is full of other things, with a read of the
status register behind each. -/
theorem executions_alike_littered :
    let plain := [Frame.write 1 0x40000008 0x41, Frame.read 1 0x40000004]
    let littered :=
      [{ Frame.write 7 0x40000008 0x41 with length := 99, outcome := .timeout, payload := .ofBytes [0x41, 0, 0, 0, 5, 6] },
        { Frame.read 8 0x40000004 with payload := .ofBytes [1, 2, 3] }]
    List.Forall₂ Frame.AsksSame plain littered ∧
      List.Forall₂ (fun x y => x.output.SaysSame y.output ∧ x.after = y.after)
        (trace execute (ModelConfig.build default) plain) (trace execute (ModelConfig.build default) littered) := by
  intro plain littered
  have h : List.Forall₂ Frame.AsksSame plain littered :=
    .cons ⟨rfl, rfl, fun _ => by decide +kernel⟩ (.cons ⟨rfl, rfl, nofun⟩ .nil)
  exact ⟨h, executions_alike _ h⟩

end Peripheral
