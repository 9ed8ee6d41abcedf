import Peripheral.Proofs.Uart.Run

/-!
# One tick of a UART

A tick is an arrival and then a departure, and neither minds the other. This module says when a byte arrives (`Hears`) and
when one leaves (`Sends`), in terms of the control bits, the two queues and the draws, and from that what a tick does to the
UART and to the generator, which interrupts it raises and what it leaves alone (`ticked_of_tick`).
-/

namespace Peripheral.Uart

/-- A byte could arrive: the receiver is on, there is room, and there is something that could arrive. -/
def Listens (u : Uart) : Prop :=
  has u.control Control.enable = true ∧ has u.control Control.rxEnable = true ∧
    u.rx.entries.length < u.rx.capacity ∧ u.pattern ≠ []

/-- A byte arrives: it could, and the draw falls below the UART's chance. -/
def Hears (u : Uart) (g : Rng) : Prop := u.Listens ∧ g.unit.1 < u.chance

/-- A byte leaves: the transmitter is on, and one waits. -/
def Sends (u : Uart) : Prop :=
  has u.control Control.enable = true ∧ has u.control Control.txEnable = true ∧ u.tx.entries ≠ []

instance (u : Uart) : Decidable u.Listens := inferInstanceAs (Decidable (_ ∧ _))

instance (u : Uart) (g : Rng) : Decidable (u.Hears g) := inferInstanceAs (Decidable (_ ∧ _))

instance (u : Uart) : Decidable u.Sends := inferInstanceAs (Decidable (_ ∧ _))

/-- What no tick touches: the registers that belong to the user, the counts of dropped bytes, the bit that says that the UART
is ready, and the bits without a meaning. -/
structure Unmoved (u u' : Uart) : Prop where
  control_eq : u'.control = u.control
  baud_eq : u'.baud = u.baud
  data_eq : u'.data = u.data
  rx_dropped : u'.rx.dropped = u.rx.dropped
  tx_dropped : u'.tx.dropped = u.tx.dropped
  ready_eq : has u'.status Status.ready = has u.status Status.ready
  high_bits : ∀ i, 3 < i → u'.status.toNat.testBit i = u.status.toNat.testBit i

/-- A byte of the pattern arrives: the draw of its place leads from one state of the generator to another, and the byte goes
behind the others. -/
def Receives (u : Uart) (g : Rng) (u' : Uart) (g' : Rng) : Prop :=
  ∃ (i : Nat) (h : i < u.pattern.length), Rng.below u.pattern.length g = (i, g') ∧
    u'.rx.entries = u.rx.entries ++ [u.pattern[i]]

/-- What a tick does to a UART and to the generator, and the interrupts that it raises. -/
structure Ticked (u : Uart) (g : Rng) (ids : List UInt32) (u' : Uart) (g' : Rng) : Prop where
  /-- A UART that is switched off does nothing. -/
  off : has u.control Control.enable = false → ids = [] ∧ u' = u ∧ g' = g
  /-- Nothing is drawn unless a byte could arrive. -/
  undrawn : ¬u.Listens → g' = g
  /-- If none arrives, one fraction was drawn. -/
  missed : u.Listens → ¬u.Hears g → g' = g.unit.2
  heard : u.Hears g → u.Receives g.unit.2 u' g'
  unheard : ¬u.Hears g → u'.rx.entries = u.rx.entries
  /-- It is the byte that waited longest that leaves. -/
  sent : u.Sends → ∃ b, u.tx.entries = b :: u'.tx.entries
  unsent : ¬u.Sends → u'.tx.entries = u.tx.entries
  /-- First comes the interrupt for a byte that arrived, then the one for the last byte that waited having left. -/
  ids_eq : ids =
    (if u.Hears g ∧ has u.control Control.irqEnable = true then [Interrupt.rxReady] else []) ++
      (if u.Sends ∧ u'.tx.entries = [] ∧ has u.control Control.irqEnable = true then [Interrupt.txComplete] else [])
  unmoved : u.Unmoved u'

theorem Unmoved.refl (u : Uart) : u.Unmoved u := ⟨rfl, rfl, rfl, rfl, rfl, rfl, fun _ _ => rfl⟩

theorem Unmoved.trans {u v w : Uart} (h : u.Unmoved v) (h' : v.Unmoved w) : u.Unmoved w where
  control_eq := h'.control_eq.trans h.control_eq
  baud_eq := h'.baud_eq.trans h.baud_eq
  data_eq := h'.data_eq.trans h.data_eq
  rx_dropped := h'.rx_dropped.trans h.rx_dropped
  tx_dropped := h'.tx_dropped.trans h.tx_dropped
  ready_eq := h'.ready_eq.trans h.ready_eq
  high_bits i hi := (h'.high_bits i hi).trans (h.high_bits i hi)

/-! ## Bits that stay -/

/-- Setting bits of the status leaves the bits without a meaning alone. -/
theorem testBit_setBits {mask : UInt32} (hmask : mask.toNat < 16) (word : UInt32) {i : Nat} (hi : 3 < i) :
    (setBits word mask).toNat.testBit i = word.toNat.testBit i := by
  have hpow : 2 ^ 4 ≤ 2 ^ i := Nat.pow_le_pow_right (by omega) hi
  exact testBit_setBits_of_unset (Nat.testBit_lt_two_pow (Nat.lt_of_lt_of_le hmask hpow)) word

/-- Setting other bits leaves the UART ready or not, as it was. -/
theorem has_ready_setBits {mask : UInt32} (hmask : mask &&& Status.ready = 0) (word : UInt32) :
    has (setBits word mask) Status.ready = has word Status.ready := by
  have hand : setBits word mask &&& Status.ready = word &&& Status.ready := by
    have hnone : mask.toNat &&& Status.ready.toNat = 0 := congrArg UInt32.toNat hmask
    rw [← UInt32.toNat_inj, setBits, UInt32.toNat_and, UInt32.toNat_or, Nat.and_or_distrib_right, hnone, Nat.or_zero,
      UInt32.toNat_and]
  rw [has, has, hand]

/-! ## The arrival

The draws are taken apart by equations only: their loops are as long as a period of the generator, and whatever computes one
does not come back.
-/

/-- A byte could arrive at a UART that is on exactly if the UART says so. -/
theorem listens_iff {u : Uart} (hon : u.enabled = true) : u.Listens ↔ u.listening = true := by
  have hon : has u.control Control.enable = true := hon
  have hroom : u.rx.isFull = false ↔ u.rx.entries.length < u.rx.capacity := by simp [Fifo.isFull]
  have hpattern : u.pattern.isEmpty = false ↔ u.pattern ≠ [] := by simp
  rw [Listens, listening, Bool.and_eq_true, Bool.and_eq_true, Bool.not_eq_true', Bool.not_eq_true', hroom, hpattern,
    and_assoc]
  exact ⟨fun h => h.2, fun h => ⟨hon, h⟩⟩

/-- With a fraction that is low enough, it is the byte at the place drawn that arrives. -/
theorem arrival_of_low {u : Uart} {g g₁ g₂ : Rng} {x : Float} {i : Nat} (hl : u.listening = true)
    (hx : g.unit = (x, g₁)) (hlow : x < u.chance) (hi : Rng.below u.pattern.length g₁ = (i, g₂)) :
    u.arrival g = (u.pattern[i]?, g₂) := by
  rw [arrival, if_pos hl, hx]
  refine (if_pos hlow).trans ?_
  rw [hi]

/-- No byte arrives if the draw is too high. -/
theorem arrival_of_high {u : Uart} {g g₁ : Rng} {x : Float} (hl : u.listening = true) (hx : g.unit = (x, g₁))
    (hhigh : ¬x < u.chance) : u.arrival g = (none, g₁) := by
  rw [arrival, if_pos hl, hx]
  exact if_neg hhigh

/-- The place drawn lies in the pattern. -/
theorem arrival_of_hears {u : Uart} {g : Rng} (h : u.Hears g) :
    ∃ (i : Nat) (_ : i < u.pattern.length) (g' : Rng), Rng.below u.pattern.length g.unit.2 = (i, g') ∧
      u.arrival g = (some u.pattern[i], g') := by
  obtain ⟨hlistens, hlow⟩ := h
  have hl := (listens_iff hlistens.1).1 hlistens
  rcases hx : g.unit with ⟨x, g₁⟩
  rw [hx] at hlow
  have hi := Rng.below_lt u.pattern.length g₁ (List.length_pos_iff.2 hlistens.2.2.2)
  rcases hplace : Rng.below u.pattern.length g₁ with ⟨i, g'⟩
  rw [hplace] at hi
  refine ⟨i, hi, g', rfl, ?_⟩
  rw [arrival_of_low hl hx hlow hplace, List.getElem?_eq_getElem hi]

/-- No byte arrives if the draw is missed, and the generator has drawn once. -/
theorem arrival_of_misses {u : Uart} {g : Rng} (hl : u.Listens) (h : ¬u.Hears g) : u.arrival g = (none, g.unit.2) := by
  have hlow : ¬g.unit.1 < u.chance := fun hlow => h ⟨hl, hlow⟩
  rcases hx : g.unit with ⟨x, g₁⟩
  rw [hx] at hlow
  exact arrival_of_high ((listens_iff hl.1).1 hl) hx hlow

/-- No byte arrives if none could, and the generator has not drawn. -/
theorem arrival_of_deaf {u : Uart} (g : Rng) (hon : u.enabled = true) (h : ¬u.Listens) : u.arrival g = (none, g) := by
  rw [arrival, if_neg fun hl => h ((listens_iff hon).2 hl)]

/-- A byte that finds room goes behind the others. -/
theorem unmoved_receive {u : Uart} (b : UInt8) (hroom : u.rx.entries.length < u.rx.capacity) :
    u.Unmoved (u.receive b).2 ∧ (u.receive b).2.rx.entries = u.rx.entries ++ [b] := by
  obtain ⟨-, hentries, hdropped, -⟩ := Fifo.push_of_lt u.rx b hroom
  rw [receive_of_room b hroom]
  exact ⟨⟨rfl, rfl, rfl, hdropped, rfl, has_ready_setBits (by decide) _, fun _ hi => testBit_setBits (by decide) _ hi⟩,
    hentries⟩

/-- The arrival of a tick has to do with the receiver and the generator only. -/
structure Arrived (u : Uart) (g : Rng) (byte? : Option UInt8) (u' : Uart) (g' : Rng) : Prop where
  unmoved : u.Unmoved u'
  tx_eq : u'.tx = u.tx
  undrawn : ¬u.Listens → g' = g
  missed : u.Listens → ¬u.Hears g → g' = g.unit.2
  heard : u.Hears g → u.Receives g.unit.2 u' g'
  unheard : ¬u.Hears g → u'.rx.entries = u.rx.entries
  isSome_iff : byte?.isSome = true ↔ u.Hears g

/-- Where no byte arrives, nothing is received. -/
theorem afterArrival_of_none {u : Uart} {g g' : Rng} (h : u.arrival g = (none, g')) : u.afterArrival g = u := by
  rw [afterArrival, h]

/-- A byte that arrives is received. -/
theorem afterArrival_of_some {u : Uart} {g g' : Rng} {b : UInt8} (h : u.arrival g = (some b, g')) :
    u.afterArrival g = (u.receive b).2 := by
  rw [afterArrival, h]

/-- The arrival of a tick is as it should be. -/
theorem arrived {u : Uart} {g g' : Rng} {byte? : Option UInt8} (hon : u.enabled = true)
    (harrival : u.arrival g = (byte?, g')) : u.Arrived g byte? (u.afterArrival g) g' := by
  by_cases hl : u.Listens
  · by_cases hh : u.Hears g
    · obtain ⟨i, hi, g₂, hplace, hsome⟩ := arrival_of_hears hh
      obtain ⟨rfl, rfl⟩ := Prod.mk.inj (harrival.symm.trans hsome)
      obtain ⟨hunmoved, hentries⟩ := unmoved_receive u.pattern[i] hl.2.2.1
      rw [afterArrival_of_some hsome]
      exact ⟨hunmoved, (receive_transmitter u _).2, fun h => absurd hl h, fun _ h => absurd hh h,
        fun _ => ⟨i, hi, hplace, hentries⟩, fun h => absurd hh h, iff_of_true rfl hh⟩
    · have hnone := arrival_of_misses hl hh
      obtain ⟨rfl, hg⟩ := Prod.mk.inj (harrival.symm.trans hnone)
      rw [afterArrival_of_none hnone]
      exact ⟨.refl u, rfl, fun h => absurd hl h, fun _ _ => hg, fun h => absurd h hh, fun _ => rfl,
        iff_of_false Bool.false_ne_true hh⟩
  · have hh : ¬u.Hears g := fun h => hl h.1
    have hnone := arrival_of_deaf g hon hl
    obtain ⟨rfl, hg⟩ := Prod.mk.inj (harrival.symm.trans hnone)
    rw [afterArrival_of_none hnone]
    exact ⟨.refl u, rfl, fun _ => hg, fun h => absurd h hl, fun h => absurd h hh, fun _ => rfl,
      iff_of_false Bool.false_ne_true hh⟩

/-! ## The departure -/

/-- A transmitter that is off, or has nothing to send, does nothing. -/
theorem departure_of_idle {u : Uart} (h : ¬(has u.control Control.txEnable = true ∧ u.tx.entries ≠ [])) :
    u.departure = (none, u) := by
  rw [departure]
  by_cases ht : has u.control Control.txEnable = true
  · rw [if_pos ht, transmit?_of_nil (by simpa [ht] using h)]
  · rw [if_neg ht]

/-- A transmitter that is on sends the byte that waited longest, and tells whether it was the last. -/
theorem departure_of_cons {u : Uart} {b : UInt8} {rest : Bytes} (ht : has u.control Control.txEnable = true)
    (he : u.tx.entries = b :: rest) :
    u.departure.1 = some (b, rest.isEmpty) ∧ u.Unmoved u.departure.2 ∧ u.departure.2.tx.entries = rest ∧
      u.departure.2.rx = u.rx := by
  obtain ⟨tx, hentries, hdropped, -, hsent⟩ := transmit?_of_cons he
  rw [departure, if_pos ht, hsent]
  refine ⟨rfl, ⟨rfl, rfl, rfl, rfl, hdropped, ?_, fun i hi => ?_⟩, hentries, rfl⟩
  · cases rest with
    | nil => exact has_ready_setBits (by decide) _
    | cons => rfl
  · cases rest with
    | nil => exact testBit_setBits (by decide) _ hi
    | cons => rfl

/-- The departure of a tick has to do with the transmitter only. -/
structure Departed (u : Uart) (sent? : Option (UInt8 × Bool)) (u' : Uart) : Prop where
  unmoved : u.Unmoved u'
  rx_eq : u'.rx = u.rx
  sent : has u.control Control.txEnable = true ∧ u.tx.entries ≠ [] → ∃ b, u.tx.entries = b :: u'.tx.entries
  unsent : ¬(has u.control Control.txEnable = true ∧ u.tx.entries ≠ []) → u'.tx.entries = u.tx.entries
  last_iff : sent?.any (·.2) = true ↔
    (has u.control Control.txEnable = true ∧ u.tx.entries ≠ []) ∧ u'.tx.entries = []

/-- The departure of a tick is as it should be. -/
theorem departed (u : Uart) : u.Departed u.departure.1 u.departure.2 := by
  by_cases hs : has u.control Control.txEnable = true ∧ u.tx.entries ≠ []
  · obtain ⟨b, rest, he⟩ := List.exists_cons_of_ne_nil hs.2
    obtain ⟨hsent, hunmoved, hrest, hrx⟩ := departure_of_cons hs.1 he
    refine ⟨hunmoved, hrx, fun _ => ⟨b, hrest ▸ he⟩, fun h => absurd hs h, ?_⟩
    rw [hsent, hrest]
    simp [hs]
  · rw [departure_of_idle hs]
    exact ⟨.refl u, rfl, fun h => absurd h hs, fun _ => rfl, by simp [hs]⟩

/-! ## The tick -/

/-- The interrupts of a tick are those of the first byte that arrived and of the last one that left. -/
theorem raised_eq {u : Uart} {arrived : Option UInt8} {sent : Option (UInt8 × Bool)} {first last : Prop}
    [Decidable first] [Decidable last] (hfirst : arrived.isSome = true ↔ first) (hlast : sent.any (·.2) = true ↔ last) :
    u.raised arrived sent =
      (if first ∧ has u.control Control.irqEnable = true then [Interrupt.rxReady] else []) ++
        (if last ∧ has u.control Control.irqEnable = true then [Interrupt.txComplete] else []) := by
  have hirq : u.irqEnabled = has u.control Control.irqEnable := rfl
  rw [raised, hirq]
  cases has u.control Control.irqEnable with
  | false => simp
  | true => simp [hfirst, hlast]

/-- A tick of a UART that is on is an arrival, and then a departure. -/
theorem tick_of_enabled {u : Uart} {g g' : Rng} {byte? : Option UInt8} (hon : u.enabled = true)
    (harrival : u.arrival g = (byte?, g')) :
    u.tick g = (u.raised byte? (u.afterArrival g).departure.1, (u.afterArrival g).departure.2, g') := by
  rw [tick, if_pos hon, harrival]

/-- What a UART that is switched on does in a tick. -/
theorem ticked_of_enabled {u : Uart} (g : Rng) (hon : u.enabled = true) :
    u.Ticked g (u.tick g).1 (u.tick g).2.1 (u.tick g).2.2 := by
  rcases harrival : u.arrival g with ⟨byte?, g'⟩
  have ha := arrived hon harrival
  have hd := departed (u.afterArrival g)
  -- The arrival touches neither the control register nor the transmit queue.
  have hsends :
      has (u.afterArrival g).control Control.txEnable = true ∧ (u.afterArrival g).tx.entries ≠ [] ↔ u.Sends := by
    rw [ha.unmoved.control_eq, ha.tx_eq]
    exact ⟨fun h => ⟨hon, h⟩, fun h => h.2⟩
  have hlast := hd.last_iff
  rw [hsends] at hlast
  rw [tick_of_enabled hon harrival]
  refine ⟨fun hoff => ?_, ha.undrawn, ha.missed, ?_, ?_, ?_, ?_, ?_, ha.unmoved.trans hd.unmoved⟩
  · exact absurd (hoff.symm.trans hon) Bool.false_ne_true
  · rw [Receives, hd.rx_eq]
    exact ha.heard
  · rw [hd.rx_eq]
    exact ha.unheard
  · rw [← ha.tx_eq, ← hsends]
    exact hd.sent
  · rw [← ha.tx_eq, ← hsends]
    exact hd.unsent
  · rw [raised_eq ha.isSome_iff hlast]
    simp only [and_assoc]

/-- What a tick does, in every state of the UART and of the generator. -/
theorem ticked_of_tick (u : Uart) (g : Rng) : u.Ticked g (u.tick g).1 (u.tick g).2.1 (u.tick g).2.2 := by
  by_cases hon : u.enabled = true
  · exact ticked_of_enabled g hon
  · have hdeaf : ¬u.Listens := fun h => hon h.1
    have hmute : ¬u.Sends := fun h => hon h.1
    rw [tick, if_neg hon]
    refine ⟨fun _ => ⟨rfl, rfl, rfl⟩, fun _ => rfl, fun h => absurd h hdeaf, fun h => absurd h.1 hdeaf, fun _ => rfl,
      fun h => absurd h hmute, fun _ => rfl, ?_, .refl u⟩
    rw [if_neg fun h => hdeaf h.1.1, if_neg fun h => hmute h.1]
    rfl

end Peripheral.Uart
