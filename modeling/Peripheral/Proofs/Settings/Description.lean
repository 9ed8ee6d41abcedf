import Peripheral.Proofs.Json.Decimals
import Peripheral.Proofs.Json.Records
import Peripheral.Settings.Format

/-!
# Texts that describe settings

Every text of an object that describes a part of the settings is read as what it describes: the default, with exactly those
fields replaced that the text names. The order of the fields, blanks, and fields of other names do not count. What describes
a device names its kind, wherever it likes.
-/

namespace Peripheral

open Json

/-! ## Forms of numbers -/

namespace Json

/-- Words. -/
def Form.word : Form UInt32 := .number UInt32.toNat fun _ _ => UInt32.toNat_inj.1

/-- Numbers of 64 bits. -/
def Form.long : Form UInt64 := .number UInt64.toNat fun _ _ => UInt64.toNat_inj.1

/-- Bytes. -/
def Form.byte : Form UInt8 := .number UInt8.toNat fun _ _ => UInt8.toNat_inj.1

/-- Numbers of 64 bits that may be null. -/
def Form.optionalLong : Form (Option UInt64) :=
  .optional (fun j v => j = .number (.natural v.toNat)) (fun _ _ _ h h' => Form.long.sound rfl h h') (fun _ h => nomatch h)

theorem depth_word {j : Json} {v : UInt32} (h : Form.word.means j v) : depth j = 0 := by
  cases h
  rfl

theorem depth_real {j : Json} {x : Float} (h : Form.real.means j x) : depth j = 0 := by
  obtain ⟨n, rfl, -⟩ := h
  rfl

theorem depthOfItems_bytes {js : List Json} {bs : Bytes} (h : List.Forall₂ Form.byte.means js bs) : depthOfItems js = 0 := by
  induction h with
  | nil => rfl
  | cons hj _ ih =>
    cases hj
    simp [depthOfItems, depth, ih]

theorem depth_bytes {j : Json} {bs : Bytes} (h : Form.byte.list.means j bs) : depth j = 1 := by
  cases j with
  | array js => simp only [depth, depthOfItems_bytes h]
  | _ => exact h.elim

namespace Shape

/-- A word is read as it stands. -/
theorem reads_word : word.Reads .word := reads_number (fun v => v.toNat_lt) (fun _ => UInt32.ofNat_toNat)

theorem parts_word : word.Parts .word := parts_number (fun v => v.toNat_lt) (fun _ => UInt32.ofNat_toNat)

/-- A number of 64 bits is read as it stands. -/
theorem reads_long : long.Reads .long := reads_number (fun v => v.toNat_lt) (fun _ => UInt64.ofNat_toNat)

/-- A byte is read as it stands. -/
theorem reads_byte : byte.Reads .byte := reads_number (fun v => v.toNat_lt) (fun _ => UInt8.ofNat_toNat)

theorem parts_byte : byte.Parts .byte := parts_number (fun v => v.toNat_lt) (fun _ => UInt8.ofNat_toNat)

/-- A number of 64 bits that may be null is read as it stands. -/
theorem reads_optionalLong : long.optional.Reads .optionalLong := reads_optional reads_long

end Shape

end Json

/-! ## Layouts -/

/-- The slots of a UART. -/
def Uart.Config.layout : Layout Uart.Config where
  slots :=
    [ ⟨UInt32, "device_id", false, .word, fun c => c.deviceId, fun v c => { c with deviceId := v }⟩,
      ⟨UInt32, "base_address", false, .word, fun c => c.baseAddress, fun v c => { c with baseAddress := v }⟩,
      ⟨Float, "rx_probability", false, .real, fun c => c.rxProbability, fun v c => { c with rxProbability := v }⟩,
      ⟨Bytes, "rx_pattern", false, .list .byte, fun c => c.rxPattern, fun v c => { c with rxPattern := v }⟩ ]
  start := default
  nodup := by simp
  get_put := by simp
  get_put_of_ne := by simp
  ext := by
    rintro ⟨_, _, _, _⟩ ⟨_, _, _, _⟩ h
    simpa using h

/-- The slots of the timing of a device. -/
def ActivityConfig.layout : Layout ActivityConfig where
  slots :=
    [ ⟨UInt64, "tick_interval_ms", false, .long, fun c => c.tickInterval, fun v c => { c with tickInterval := v }⟩,
      ⟨UInt64, "startup_delay_ms", false, .long, fun c => c.startupDelay, fun v c => { c with startupDelay := v }⟩,
      ⟨Option UInt64, "seed", false, .optionalLong, fun c => c.seed, fun v c => { c with seed := v }⟩ ]
  start := default
  nodup := by simp
  get_put := by simp
  get_put_of_ne := by simp
  ext := by
    rintro ⟨_, _, _⟩ ⟨_, _, _⟩ h
    simpa using h

/-- The slots of a server. -/
def ServerConfig.layout : Layout ServerConfig where
  slots :=
    [ ⟨String, "socket_path", false, .text, fun c => c.socketPath, fun v c => { c with socketPath := v }⟩,
      ⟨UInt64, "max_connections", false, .long, fun c => c.maxConnections, fun v c => { c with maxConnections := v }⟩,
      ⟨UInt64, "send_timeout_ms", false, .long, fun c => c.sendTimeout, fun v c => { c with sendTimeout := v }⟩ ]
  start := default
  nodup := by simp
  get_put := by simp
  get_put_of_ne := by simp
  ext := by
    rintro ⟨_, _, _⟩ ⟨_, _, _⟩ h
    simpa using h

namespace ModelConfig

/-- The slot of what a register file is set up from. -/
def registersLayout : Layout UInt32 where
  slots := [⟨UInt32, "device_id", true, .word, fun id => id, fun v _ => v⟩]
  start := 0
  nodup := by simp
  get_put := by simp
  get_put_of_ne := by simp
  ext := by
    intro x y h
    simpa using h

/-- A register file. -/
def registersKind : Kind ModelConfig := ⟨UInt32, "generic", registersLayout, .registers⟩

/-- A UART. -/
def uartKind : Kind ModelConfig := ⟨Uart.Config, "uart", Uart.Config.layout, .uart⟩

/-- The kinds of device. -/
def family : Family ModelConfig where
  key := tag
  kinds := [registersKind, uartKind]
  tag_inj := by simp [registersKind, uartKind]
  key_free := by simp [registersKind, uartKind, Layout.Knows, registersLayout, Uart.Config.layout, tag]
  shallow := by
    simp only [List.forall_mem_cons, registersKind, uartKind, registersLayout, Uart.Config.layout]
    refine ⟨⟨fun j v h => ?_, nofun⟩, ⟨fun j v h => ?_, fun j v h => ?_, fun j v h => ?_, fun j v h => ?_, nofun⟩, nofun⟩
    all_goals first
      | rw [depth_word h]; decide
      | rw [depth_real h]; decide
      | rw [depth_bytes h]; decide

end ModelConfig

/-- The slots of a device that is served. -/
def DeviceConfig.layout : Layout DeviceConfig where
  slots :=
    [ ⟨ServerConfig, "server", false, ServerConfig.layout.form, fun c => c.server, fun v c => { c with server := v }⟩,
      ⟨ModelConfig, "model", false, ModelConfig.family.form, fun c => c.model, fun v c => { c with model := v }⟩,
      ⟨ActivityConfig, "activity", false, ActivityConfig.layout.form, fun c => c.activity,
        fun v c => { c with activity := v }⟩ ]
  start := default
  nodup := by simp
  get_put := by simp
  get_put_of_ne := by simp
  ext := by
    rintro ⟨_, _, _⟩ ⟨_, _, _⟩ h
    simpa using h

/-- The slot of settings. -/
def Settings.layout : Layout Settings where
  slots := [⟨List DeviceConfig, "devices", true, DeviceConfig.layout.form.list, fun s => s.devices, fun v _ => ⟨v⟩⟩]
  start := ⟨[]⟩
  nodup := by simp
  get_put := by simp
  get_put_of_ne := by simp
  ext := by
    rintro ⟨_⟩ ⟨_⟩ h
    simpa using h

/-! ## What stands for a part of the settings is read -/

/-- What a UART is set up from is read as it stands. -/
theorem Uart.Config.reads_shape : Uart.Config.shape.Reads layout.form :=
  Layout.reads_record
    (.cons (Slot.reads_of Shape.reads_word) <| .cons (Slot.reads_of Shape.reads_word) <|
      .cons (Slot.reads_of Shape.reads_real) <| .cons (Slot.reads_of (Shape.reads_array Shape.reads_byte)) .nil)

theorem Uart.Config.parts_shape : Uart.Config.shape.Parts layout.form :=
  Layout.parts_record
    (.cons (Slot.parts_of Shape.parts_word) <| .cons (Slot.parts_of Shape.parts_word) <|
      .cons (Slot.parts_of Shape.parts_real) <| .cons (Slot.parts_of (Shape.parts_array Shape.parts_byte)) .nil)

/-- The timing of a device is read as it stands. -/
theorem ActivityConfig.reads_shape : ActivityConfig.shape.Reads layout.form :=
  Layout.reads_record
    (.cons (Slot.reads_of Shape.reads_long) <| .cons (Slot.reads_of Shape.reads_long) <|
      .cons (Slot.reads_of Shape.reads_optionalLong) .nil)

/-- What a server is set up from is read as it stands. -/
theorem ServerConfig.reads_shape : ServerConfig.shape.Reads layout.form :=
  Layout.reads_record
    (.cons (Slot.reads_of Shape.reads_text) <| .cons (Slot.reads_of Shape.reads_long) <|
      .cons (Slot.reads_of Shape.reads_long) .nil)

theorem ModelConfig.parts_registersShape : registersShape.Parts registersLayout.form :=
  Layout.parts_record (.cons (Slot.parts_of Shape.parts_word) .nil)

/-- A model is read as it stands, whichever kind it is of, if it is not nested too deeply. -/
theorem ModelConfig.reads_shape {nesting : Nat} (h : nesting ≤ 28) : (ModelConfig.shape nesting).Reads family.form := by
  refine Family.reads_tagged h fun k hk => ?_
  rcases List.mem_cons.1 hk with rfl | hk
  · refine ⟨_, rfl, rfl, fun hx => ?_⟩
    simp only [parts_registersShape hx]
    rfl
  · rw [List.mem_singleton.1 hk]
    refine ⟨_, rfl, rfl, fun hx => ?_⟩
    simp only [Uart.Config.parts_shape hx]
    rfl

/-- A device that is served is read as it stands. -/
theorem DeviceConfig.reads_shape : DeviceConfig.shape.Reads layout.form :=
  Layout.reads_record
    (.cons (Slot.reads_of ServerConfig.reads_shape) <|
      .cons (Slot.reads_of (ModelConfig.reads_shape (by decide))) <|
      .cons (Slot.reads_of ActivityConfig.reads_shape) .nil)

/-- Settings are read as they stand. -/
theorem Settings.reads_shape : Settings.shape.Reads layout.form :=
  Layout.reads_record (.cons (Slot.reads_of (Shape.reads_array DeviceConfig.reads_shape)) .nil)

/-! ## Objects that describe a part of the settings -/

/-- What becomes of the texts of objects that are marked in some way, and read by a shape: one that gives every slot of a
layout at most once, and a value of its form, is read as the record that it describes; two that give the same slots, with
values that are alike, are read as the same one, and so are two with the same members of known names, in whatever order and
whatever the others are. -/
structure Described {σ α : Type} (s : Shape α) (wrap : σ → α) (l : Layout σ) (marked : List (List Char × Json) → Prop) :
    Prop where
  parse_eq : ∀ {text ms}, Denotes text (.object ms) → marked ms → l.Typed ms →
    ∃ x, l.Describes ms x ∧ s.parse text = .ok (wrap x)
  parse_congr : ∀ {text text' ms ms'}, Denotes text (.object ms) → Denotes text' (.object ms') → marked ms → marked ms' →
    l.Typed ms → l.Typed ms' → l.Alike ms ms' → s.parse text = s.parse text'
  parse_perm : ∀ {text text' ms ms'}, Denotes text (.object ms) → Denotes text' (.object ms') → marked ms → marked ms' →
    l.Typed ms → l.Typed ms' → (l.known ms).Perm (l.known ms') → s.parse text = s.parse text'

section

variable {σ α : Type} {s : Shape α} {f : Form α} {wrap : σ → α} {l : Layout σ} {marked : List (List Char × Json) → Prop}

/-- Texts of objects that give the same slots, with values that are alike, are read as the same record. -/
theorem parse_congr_of_reads (hs : s.Reads f)
    (hmeans : ∀ {ms x}, marked ms → l.Describes ms x → f.means (.object ms) (wrap x)) {text text' : String}
    {ms ms' : List (List Char × Json)} (htext : Denotes text (.object ms)) (htext' : Denotes text' (.object ms'))
    (hmarked : marked ms) (hmarked' : marked ms') (htyped : l.Typed ms) (htyped' : l.Typed ms') (halike : l.Alike ms ms') :
    s.parse text = s.parse text' := by
  obtain ⟨x, hx⟩ := htyped.describes
  obtain ⟨x', hx'⟩ := htyped'.describes
  rw [hs.parse htext (hmeans hmarked hx), hs.parse htext' (hmeans hmarked' hx'), hx.sound halike hx']

/-- What a shape reads as it stands becomes of texts what is said of them. -/
theorem described_of_reads (hs : s.Reads f)
    (hmeans : ∀ {ms x}, marked ms → l.Describes ms x → f.means (.object ms) (wrap x)) : Described s wrap l marked where
  parse_eq := by
    intro text ms htext hmarked htyped
    obtain ⟨x, hx⟩ := htyped.describes
    exact ⟨x, hx, hs.parse htext (hmeans hmarked hx)⟩
  parse_congr := parse_congr_of_reads hs hmeans
  parse_perm := fun htext htext' hmarked hmarked' htyped htyped' hperm =>
    parse_congr_of_reads hs hmeans htext htext' hmarked hmarked' htyped htyped' (htyped.alike_of_perm hperm)

end

namespace Settings

/-- What becomes of the texts of objects for the parts of the settings. An object for a model names its kind in some place. -/
structure Descriptions : Prop where
  uart : Described Uart.Config.shape id Uart.Config.layout fun _ => True
  activity : Described ActivityConfig.shape id ActivityConfig.layout fun _ => True
  server : Described ServerConfig.shape id ServerConfig.layout fun _ => True
  device : Described DeviceConfig.shape id DeviceConfig.layout fun _ => True
  uartModel : Described (ModelConfig.shape 1) ModelConfig.uart Uart.Config.layout
    fun ms => valuesOf "kind" ms = [.text "uart".toList]
  registersModel : Described (ModelConfig.shape 1) ModelConfig.registers ModelConfig.registersLayout
    fun ms => valuesOf "kind" ms = [.text "generic".toList]

/-- Every text that describes a part of the settings is read as what it describes, whatever the order of its fields and
whatever else there is in it. -/
theorem descriptions_read : Descriptions where
  uart := described_of_reads Uart.Config.reads_shape fun _ hx => hx
  activity := described_of_reads ActivityConfig.reads_shape fun _ hx => hx
  server := described_of_reads ServerConfig.reads_shape fun _ hx => hx
  device := described_of_reads DeviceConfig.reads_shape fun _ hx => hx
  uartModel := described_of_reads (ModelConfig.reads_shape (by decide)) fun hkind hx =>
    ⟨ModelConfig.uartKind, List.mem_cons_of_mem _ List.mem_cons_self, _, rfl, hkind, hx⟩
  registersModel := described_of_reads (ModelConfig.reads_shape (by decide)) fun hkind hx =>
    ⟨ModelConfig.registersKind, List.mem_cons_self, _, rfl, hkind, hx⟩

/-- Members for a register file, its kind last, and one of another name. -/
def kindLast : List (List Char × Json) :=
  [ (['n'], .array [.object [], .bool true]), ("device_id".toList, .number (.natural 7)),
    ("kind".toList, .text "generic".toList) ]

/-- The kind of a model may come last, and a member that nobody knows makes no difference. -/
theorem descriptions_read_kindLast :
    Denotes (String.ofList (compact (.object kindLast))) (.object kindLast) ∧
      valuesOf "kind" kindLast = [.text "generic".toList] ∧ ModelConfig.registersLayout.Typed kindLast ∧
      (∃ x, ModelConfig.registersLayout.Describes kindLast x ∧
        (ModelConfig.shape 1).parse (String.ofList (compact (.object kindLast))) = .ok (.registers x)) ∧
      (ModelConfig.shape 1).parse (String.ofList (compact (.object kindLast))) =
        (ModelConfig.shape 1).parse (String.ofList (pretty (.object kindLast.reverse.dropLast))) := by
  have hseven : (Number.natural 7).Legible := legible_natural (by decide)
  have hlast : Denotes (String.ofList (compact (.object kindLast))) (.object kindLast) :=
    denotes_compact (by simp [kindLast, Legible, LegibleMembers, LegibleItems, hseven])
  have hfirst : Denotes (String.ofList (pretty (.object kindLast.reverse.dropLast))) (.object kindLast.reverse.dropLast) :=
    denotes_pretty (by simp [kindLast, Legible, LegibleMembers, hseven])
  have hkind : valuesOf "kind" kindLast = [.text "generic".toList] := rfl
  have hkind' : valuesOf "kind" kindLast.reverse.dropLast = [.text "generic".toList] := rfl
  have htyped : ModelConfig.registersLayout.Typed kindLast := by
    refine ⟨List.forall_mem_singleton.2 ⟨7, rfl⟩, fun m hm _ => ?_⟩
    simp only [kindLast, List.mem_cons, List.not_mem_nil, or_false] at hm
    rcases hm with rfl | rfl | rfl <;> decide
  have htyped' : ModelConfig.registersLayout.Typed kindLast.reverse.dropLast := by
    refine ⟨List.forall_mem_singleton.2 ⟨7, rfl⟩, fun m hm => htyped.asides m ?_⟩
    exact List.mem_reverse.1 (List.dropLast_subset _ hm)
  exact ⟨hlast, hkind, htyped, descriptions_read.registersModel.parse_eq hlast hkind htyped,
    descriptions_read.registersModel.parse_perm hlast hfirst hkind hkind' htyped htyped' (List.Perm.refl _)⟩

example :
    ((ModelConfig.shape 1).parse
      " \x7b \"x\": [\x7b\"kind\": 0\x7d, -1e3], \"device_id\" : 7, \"k\\u0069nd\":\"generic\" \x7d").toOption =
      some (.registers 7) := by
  decide +kernel

end Settings

end Peripheral
