import Peripheral.Proofs.Json.Decimals
import Peripheral.Proofs.Settings.Description

/-!
# Written settings are read again

What is written for settings describes them, and so they are found again when it is read: every device with its socket path,
whatever characters the path is made of, with every number, and with the seed that it has or has not. Of the chance of a byte
it is asked that the number that is written for it is read as that chance.
-/

namespace Peripheral

open Json

/-! ## What is written for a part of the settings stands for it -/

namespace Json.Layout

variable {σ : Type} {l : Layout σ} {ms : List (List Char × Json)} {x : σ}

/-- Members that give every slot, and nothing else that is nested deep, describe a record. -/
theorem describes_of_given (h : ∀ s ∈ l.slots, ∃ j, valuesOf s.name ms = [j] ∧ s.form.means j (s.get x))
    (hasides : ∀ m ∈ ms, ¬ l.Knows (String.ofList m.1) → depth m.2 < 100) : l.Describes ms x := by
  refine ⟨⟨fun s hs => ?_, hasides⟩, fun s hs => ?_⟩
  · obtain ⟨j, hvalues, hj⟩ := h s hs
    rw [hvalues]
    exact ⟨s.get x, hj⟩
  · obtain ⟨j, hvalues, hj⟩ := h s hs
    rw [hvalues]
    exact hj

end Json.Layout

/-- Bytes are written as an array of numbers that stands for them. -/
theorem means_bytes (bs : Bytes) : Form.byte.list.means (.array (bs.map fun b => ofNat b.toNat)) bs := by
  show List.Forall₂ Form.byte.means _ bs
  induction bs with
  | nil => exact .nil
  | cons b bs ih => exact .cons rfl ih

/-- The members that are written for a UART describe it. -/
theorem Uart.Config.describes_members (c : Uart.Config) : layout.Describes c.members c := by
  refine Layout.describes_of_given ?_ (by simp [layout, members, member, Layout.Knows])
  simp only [layout, List.forall_mem_cons]
  exact ⟨⟨ofNat c.deviceId.toNat, by simp [members, member, valuesOf], rfl⟩,
    ⟨ofNat c.baseAddress.toNat, by simp [members, member, valuesOf], rfl⟩,
    ⟨.number (.real c.rxProbability), by simp [members, member, valuesOf], ⟨_, rfl, rfl⟩⟩,
    ⟨_, by simp [members, member, valuesOf], means_bytes c.rxPattern⟩, List.forall_mem_nil _⟩

/-- What is written for the timing of a device stands for it. -/
theorem ActivityConfig.means_toJson (c : ActivityConfig) : layout.form.means c.toJson c := by
  refine Layout.describes_of_given ?_ (by simp [layout, member, Layout.Knows])
  simp only [layout, List.forall_mem_cons]
  refine ⟨⟨ofNat c.tickInterval.toNat, by simp [member, valuesOf], rfl⟩,
    ⟨ofNat c.startupDelay.toNat, by simp [member, valuesOf], rfl⟩, ⟨_, by simp [member, valuesOf]; rfl, ?_⟩,
    List.forall_mem_nil _⟩
  cases c.seed <;> exact rfl

/-- What is written for a server stands for it. -/
theorem ServerConfig.means_toJson (c : ServerConfig) : layout.form.means c.toJson c := by
  refine Layout.describes_of_given ?_ (by simp [layout, member, Layout.Knows])
  simp only [layout, List.forall_mem_cons]
  exact ⟨⟨.text c.socketPath.toList, by simp [member, valuesOf], rfl⟩,
    ⟨ofNat c.maxConnections.toNat, by simp [member, valuesOf], rfl⟩,
    ⟨ofNat c.sendTimeout.toNat, by simp [member, valuesOf], rfl⟩, List.forall_mem_nil _⟩

/-- The tag stands beside the members of its kind, and is none of them. -/
theorem ModelConfig.means_toJson (c : ModelConfig) : family.form.means c.toJson c := by
  cases c with
  | registers id =>
    have hid : registersLayout.Describes [member "device_id" (ofNat id.toNat)] id := by
      refine Layout.describes_of_given ?_ (by simp [registersLayout, member, Layout.Knows])
      simp only [registersLayout, List.forall_mem_cons]
      exact ⟨⟨ofNat id.toNat, by simp [member, valuesOf], rfl⟩, List.forall_mem_nil _⟩
    refine ⟨registersKind, List.mem_cons_self, id, rfl, ?_, hid.cons_aside ?_ (Nat.zero_lt_succ _)⟩
    · simp [Family.Names, family, registersKind, valuesOf, member, tag]
    · simp [registersLayout, Layout.Knows, tag]
  | uart c =>
    refine ⟨uartKind, List.mem_cons_of_mem _ List.mem_cons_self, c, rfl, ?_,
      c.describes_members.cons_aside ?_ (Nat.zero_lt_succ _)⟩
    · simp [Family.Names, family, uartKind, valuesOf, member, Uart.Config.members, tag]
    · simp [Uart.Config.layout, Layout.Knows, tag]

/-- What is written for a device stands for it. -/
theorem DeviceConfig.means_toJson (c : DeviceConfig) : layout.form.means c.toJson c := by
  refine Layout.describes_of_given ?_ (by simp [layout, member, Layout.Knows])
  simp only [layout, List.forall_mem_cons]
  exact ⟨⟨c.server.toJson, by simp [member, valuesOf], c.server.means_toJson⟩,
    ⟨c.model.toJson, by simp [member, valuesOf], c.model.means_toJson⟩,
    ⟨c.activity.toJson, by simp [member, valuesOf], c.activity.means_toJson⟩, List.forall_mem_nil _⟩

/-- What is written for devices stands for them. -/
theorem means_devices (cs : List DeviceConfig) :
    DeviceConfig.layout.form.list.means (.array (cs.map (·.toJson))) cs := by
  show List.Forall₂ DeviceConfig.layout.form.means _ cs
  induction cs with
  | nil => exact .nil
  | cons c cs ih => exact .cons c.means_toJson ih

/-- What is written for settings stands for them. -/
theorem Settings.means_toJson (s : Settings) : layout.form.means s.toJson s := by
  refine Layout.describes_of_given ?_ (by simp [layout, member, Layout.Knows])
  simp only [layout, List.forall_mem_cons]
  exact ⟨⟨.array (s.devices.map (·.toJson)), by simp [member, valuesOf], means_devices s.devices⟩, List.forall_mem_nil _⟩

/-! ## What is written is legible -/

theorem legible_ofNat {n : Nat} (h : n < UInt64.size) : Legible (ofNat n) := by
  rw [ofNat, Legible]
  exact legible_natural (Nat.le_of_lt_succ h)

theorem legible_word (v : UInt32) : Legible (ofNat v.toNat) := legible_ofNat (Nat.lt_trans v.toNat_lt (by decide))

theorem legible_long (v : UInt64) : Legible (ofNat v.toNat) := legible_ofNat v.toNat_lt

/-- Bytes are found again. -/
theorem legible_bytes (bs : Bytes) : LegibleItems (bs.map fun b => ofNat b.toNat) := by
  induction bs with
  | nil => simp [LegibleItems]
  | cons b bs ih =>
    rw [List.map_cons, LegibleItems]
    exact ⟨legible_ofNat (Nat.lt_trans b.toNat_lt (by decide)), ih⟩

/-- The chance of a byte is read as it is written. -/
def ModelConfig.ReadsBack : ModelConfig → Prop
  | registers _ => True
  | uart c => Shape.real.parse (String.ofList (writeReal c.rxProbability)) = .ok c.rxProbability

/-- A model is found again, if its chance is. -/
theorem ModelConfig.legible_toJson {c : ModelConfig} (h : c.ReadsBack) : Legible c.toJson := by
  cases c with
  | registers id => simp [ModelConfig.toJson, Legible, LegibleMembers, member, legible_word]
  | uart c =>
    have hreal := legible_real h
    simp [ModelConfig.toJson, Uart.Config.members, Legible, LegibleMembers, member, legible_word, legible_bytes, hreal]

/-- The timing of a device is found again. -/
theorem ActivityConfig.legible_toJson (c : ActivityConfig) : Legible c.toJson := by
  have hseed : Legible ((c.seed.map fun s => ofNat s.toNat).getD .null) := by
    cases c.seed with
    | none => simp [Legible]
    | some s => exact legible_long s
  simp [ActivityConfig.toJson, Legible, LegibleMembers, member, legible_long, hseed]

/-- A server is found again. -/
theorem ServerConfig.legible_toJson (c : ServerConfig) : Legible c.toJson := by
  simp [ServerConfig.toJson, Legible, LegibleMembers, member, legible_long]

/-- A device is found again, if the chance of its model is. -/
theorem DeviceConfig.legible_toJson {c : DeviceConfig} (h : c.model.ReadsBack) : Legible c.toJson := by
  have hmodel := ModelConfig.legible_toJson h
  simp [DeviceConfig.toJson, Legible, LegibleMembers, member, ServerConfig.legible_toJson, ActivityConfig.legible_toJson,
    hmodel]

/-- Devices are found again, if the chances of their models are. -/
theorem legible_devices {cs : List DeviceConfig} (h : ∀ c ∈ cs, c.model.ReadsBack) :
    LegibleItems (cs.map (·.toJson)) := by
  induction cs with
  | nil => simp [LegibleItems]
  | cons c cs ih =>
    obtain ⟨hc, hcs⟩ := List.forall_mem_cons.1 h
    rw [List.map_cons, LegibleItems]
    exact ⟨DeviceConfig.legible_toJson hc, ih hcs⟩

namespace Settings

/-- Settings are found again, if the chances of their models are. -/
theorem legible_toJson {s : Settings} (h : ∀ c ∈ s.devices, c.model.ReadsBack) : Legible s.toJson := by
  simp [toJson, Legible, LegibleMembers, member, legible_devices h]

/-- A text is JSON for some settings, and is read as these. -/
structure IsWritten (s : Settings) (text : String) : Prop where
  denotes : Denotes text s.toJson
  parse_eq : parse text = .ok s

/-- Text that denotes what is written for settings is read as these settings. -/
theorem isWritten_of_denotes {s : Settings} {text : String} (h : Denotes text s.toJson) : s.IsWritten text :=
  ⟨h, reads_shape.parse h s.means_toJson⟩

/-- What is written for settings is JSON for them, without blanks and with one item to a line, and they are found again in
it. -/
theorem parse_written (s : Settings) (h : ∀ c ∈ s.devices, c.model.ReadsBack) :
    s.IsWritten s.render ∧ s.IsWritten (String.ofList (pretty s.toJson)) :=
  ⟨isWritten_of_denotes (denotes_compact (legible_toJson h)), isWritten_of_denotes (denotes_pretty (legible_toJson h))⟩

/-- Settings for two devices, one with a path of characters that are escaped. -/
def sample : Settings where
  devices :=
    [ { server := { socketPath := "/a \"b\"\\c\n\x01\u00e9", maxConnections := 0, sendTimeout := 18446744073709551615 }
        model := .uart { deviceId := 4294967295, baseAddress := 0, rxProbability := Float.ofBits 0x3FE0000000000000,
                         rxPattern := [0, 255] }
        activity := { tickInterval := 0, startupDelay := 1, seed := some 18446744073709551615 } },
      { server := { socketPath := "", maxConnections := 1, sendTimeout := 0 }
        model := .registers 7
        activity := { tickInterval := 1, startupDelay := 0, seed := none } } ]

/-- Settings with escaped characters, the greatest numbers and an empty path are read as they are written. -/
theorem parse_written_sample :
    (∀ c ∈ sample.devices, c.model.ReadsBack) ∧
      sample.IsWritten sample.render ∧ sample.IsWritten (String.ofList (pretty sample.toJson)) := by
  have h : ∀ c ∈ sample.devices, c.model.ReadsBack := by
    have hhalf : Shape.real.parse (String.ofList (writeReal (Float.ofBits 0x3FE0000000000000))) =
        .ok (Float.ofBits 0x3FE0000000000000) := by decide +kernel
    simp only [sample, List.forall_mem_cons]
    exact ⟨hhalf, trivial, List.forall_mem_nil _⟩
  exact ⟨h, parse_written sample h⟩

end Settings

end Peripheral
