import Mathlib.Data.List.Perm.Subperm
import Peripheral.Proofs.Hub.Dismissal
import Peripheral.Proofs.Server.Course
import Peripheral.Proofs.Server.Delivery

/-!
# Permits

Whoever is connected is served by a handler of the present run, whose attendant keeps a permit (`Attended`). An attendant
gives its permit back only when the peer is out, and the gate takes one only if it is free, and keeps it until it hands it on or
ends. So there are never more peers than permits in use, and never more permits in use than there are (`permits_kept`), however
exchanges end and however often the server is stopped and started again.
-/

namespace Peripheral.Server

variable {δ : Type} [Service δ] {s s' : Server δ} {d d' : Disk} {e : Event} {log new : List Mark}

/-! ## Runs -/

/-- What every event preserves in a run of a server that is used by one at a time holds at its end. -/
theorem Relaying.run_preserves {device : δ} {patience : Nat} {P : Server δ → Disk → Bool → Prop} {gone : Bool}
    {past : List Hub.Event} {notes : List Note} {offers : List UInt32} {events : List Event} {es : List Hub.Event}
    (step : ∀ {s s' : Server δ} {d d' : Disk} {e : Event} {gone : Bool} {past : List Hub.Event} {notes : List Note}
      {offers : List UInt32} {log : List Mark}, Relaying device patience s gone past notes offers log → P s d gone →
      s.permits gone e = true → s.after? d e = some (s', d') → P s' d' (gone || e.isDiscard))
    (hr : Relaying device patience s gone past notes offers log) (hp : P s d gone)
    (hrun : s.run? d events = some (s', d', es)) (hu : s.usedInTurn d gone events = true) :
    ∃ past' notes' offers' log',
      Relaying device patience s' (gone || events.any Event.isDiscard) past' notes' offers' log' ∧
      P s' d' (gone || events.any Event.isDiscard) := by
  induction events generalizing s d gone past notes offers log es with
  | nil =>
    cases hrun
    rw [List.any_nil, Bool.or_false]
    exact ⟨past, notes, offers, log, hr, hp⟩
  | cons e rest ih =>
    obtain ⟨s₁, d₁, es', he, hrest, rfl⟩ := run?_cons_eq_some hrun
    rw [usedInTurn, he] at hu
    obtain ⟨hpermits, hu⟩ := Bool.and_eq_true_iff.1 hu
    obtain ⟨new, hr₁⟩ := hr.step hpermits he
    rw [List.any_cons, ← Bool.or_assoc]
    exact ih hr₁ (step hr hp hpermits he) hrest hu

/-! ## Attendants -/

omit [Service δ] in
/-- The attendants that keep a permit of the present run. -/
def keepers (s : Server δ) : List Attendant := s.attendants.filter fun a => a.run + 1 == s.runs

omit [Service δ] in
/-- The keepers are the attendants of the present run. -/
theorem mem_keepers {a : Attendant} : a ∈ s.keepers ↔ a ∈ s.attendants ∧ a.run + 1 = s.runs := by
  rw [keepers, List.mem_filter, beq_iff_eq]

omit [Service δ] in
/-- The permits in use are those of the attendants, and the one of the gate. -/
theorem permitsUsed_eq (s : Server δ) : s.permitsUsed = s.keepers.length + s.gate.holdsPermit.toNat := rfl

omit [Service δ] in
/-- What the attendants of a server are there for. -/
structure Attended (s : Server δ) : Prop where
  /-- The gate is at work in a run only. -/
  begun : s.gate ≠ .ended → 0 < s.runs
  handles : ∀ a ∈ s.attendants, a.run < s.runs ∧ ∃ p, s.hub.Handles a.handler p a.run
  relay_lt : ∀ t, s.relay = .pushing t → t < s.hub.tasks.length
  /-- The dismissal of a peer whose handler has broken down is not what the relay is waiting for, so nobody cuts it short. -/
  dismisses : ∀ a ∈ s.attendants, ∀ t, a.closing? = some t →
    s.relay ≠ .pushing t ∧ ∃ p, s.hub.Handles a.handler p a.run ∧ s.hub.Dismisses t p
  /-- Whoever is connected has a handler whose attendant keeps a permit of the present run. -/
  served : ∀ p ∈ s.hub.members, ∃ a ∈ s.keepers, s.hub.Handles a.handler p a.run

omit [Service δ] in
/-- When a server is created, there are no attendants. -/
theorem attended_create (number : Nat) (config : ServerConfig) (device : δ) : (create number config device).Attended where
  begun hg := absurd rfl hg
  handles _ hin := nomatch hin
  relay_lt _ ht := nomatch ht
  dismisses _ hin := nomatch hin
  served _ hp := nomatch hp

/-- Whatever happens in the hub, a dismissal goes on. -/
theorem Attended.dismisses_run {h : Hub δ} {a : Attendant} {t : Nat} (ha : s.Attended) (ho : s.hub.Orderly log)
    (hrun : s.hub.run? (s.toHub e) = some (h, new)) (hin : a ∈ s.attendants) (hc : a.closing? = some t) :
    ∃ p, h.Handles a.handler p a.run ∧ h.Dismisses t p := by
  obtain ⟨hapart, p, hp, hd⟩ := ha.dismisses a hin t hc
  exact ⟨p, hp.run hrun, hd.run ho (ho.peer_lt _ _ hp.conducts) (fun hcut => hapart (relay_of_cutShort hcut).2) hrun⟩

/-- While the attendants stay and nobody comes in, all remains well, whatever happens in the hub. -/
theorem Attended.still (ha : s.Attended) (ho : s.hub.Orderly log) (hrun : s.hub.run? (s.toHub e) = some (s'.hub, new))
    (hnobody : ∀ link, .attach link ∉ s.toHub e) (hattendants : s'.attendants = s.attendants) (hruns : s'.runs = s.runs)
    (hgate : s'.gate ≠ .ended → s.gate ≠ .ended)
    (hrelay : ∀ t, s'.relay = .pushing t → s.relay = .pushing t ∨ t = s.hub.tasks.length ∧ t < s'.hub.tasks.length) :
    s'.Attended where
  begun hg := hruns ▸ ha.begun (hgate hg)
  handles a hin := by
    obtain ⟨hlt, p, hp⟩ := ha.handles a (hattendants ▸ hin)
    exact ⟨hruns ▸ hlt, p, hp.run hrun⟩
  relay_lt t ht := by
    rcases hrelay t ht with hsame | ⟨-, hlt⟩
    · exact Nat.lt_of_lt_of_le (ha.relay_lt t hsame) (Hub.grows_run hrun).tasks_le
    · exact hlt
  dismisses a hin t hc := by
    rw [hattendants] at hin
    refine ⟨fun ht => ?_, ha.dismisses_run ho hrun hin hc⟩
    obtain ⟨hapart, p, -, hd⟩ := ha.dismisses a hin t hc
    rcases hrelay t ht with hsame | ⟨rfl, -⟩
    · exact hapart hsame
    · exact Nat.lt_irrefl _ hd.lt
  served p hp := by
    obtain ⟨a, hin, hh⟩ := ha.served p (Hub.members_run hnobody hrun hp)
    have hkeepers : s'.keepers = s.keepers := by rw [keepers, keepers, hattendants, hruns]
    exact ⟨a, hkeepers ▸ hin, hh.run hrun⟩

/-- A client comes in, and gets a handler with an attendant. -/
theorem Attended.letIn {link : Link} (ha : s.Attended) (ho : s.hub.Orderly log)
    (hrun : s.hub.run? (s.toHub e) = some (s'.hub, new)) (hpos : 0 < s.runs)
    (hhub : s'.hub = (s.hub.register link).serve s.hub.links.length (s.runs - 1))
    (hattendants : s'.attendants = s.attendants ++ [⟨s.runs - 1, s.hub.tasks.length, none⟩])
    (hruns : s'.runs = s.runs) (hrelay : s'.relay = s.relay) : s'.Attended := by
  have hnew : s'.hub.Handles s.hub.tasks.length s.hub.links.length (s.runs - 1) := by
    rw [hhub]
    exact ⟨_, List.getElem?_concat_length⟩
  have hsplit : ∀ a ∈ s'.attendants, a ∈ s.attendants ∨ a = ⟨s.runs - 1, s.hub.tasks.length, none⟩ := by
    rw [hattendants]
    exact fun a hin => (List.mem_append.1 hin).imp_right List.mem_singleton.1
  refine ⟨fun _ => hruns ▸ hpos, fun a hin => ?_, fun t ht => ?_, fun a hin t hc => ?_, fun p hp => ?_⟩
  · rcases hsplit a hin with hold | rfl
    · obtain ⟨hlt, p, hp⟩ := ha.handles a hold
      exact ⟨hruns ▸ hlt, p, hp.run hrun⟩
    · have hlt : s.runs - 1 < s.runs := Nat.sub_lt hpos Nat.one_pos
      exact ⟨hruns ▸ hlt, _, hnew⟩
  · exact Nat.lt_of_lt_of_le (ha.relay_lt t (hrelay ▸ ht)) (Hub.grows_run hrun).tasks_le
  · rcases hsplit a hin with hold | rfl
    · exact ⟨hrelay ▸ (ha.dismisses a hold t hc).1, ha.dismisses_run ho hrun hold hc⟩
    · nomatch hc
  · rw [hhub] at hp
    rcases List.mem_append.1 (show p ∈ s.hub.members ++ [s.hub.links.length] from hp) with hp | hp
    · obtain ⟨a, hin, hh⟩ := ha.served p hp
      obtain ⟨hold, hpresent⟩ := mem_keepers.1 hin
      exact ⟨a, mem_keepers.2 ⟨hattendants ▸ List.mem_append_left _ hold, hruns ▸ hpresent⟩, hh.run hrun⟩
    · cases List.mem_singleton.1 hp
      refine ⟨_, mem_keepers.2 ⟨hattendants ▸ List.mem_append_right _ List.mem_cons_self, ?_⟩, hnew⟩
      rw [hruns]
      exact Nat.succ_pred_eq_of_pos hpos

omit [Service δ] in
/-- When an attendant may leave, the peer of its handler is out. -/
theorem Attended.gone {a : Attendant} {x : Handler} (ha : s.Attended) (hx : s.hub.Exchanging log) (hin : a ∈ s.attendants)
    (ht : s.hub.tasks[a.handler]? = some (.handler x)) (hl : s.MayLeave a x) : x.peer ∉ s.hub.members := by
  rcases hl with ⟨t, hc, hfin⟩ | ⟨-, ending, hend, hne⟩
  · obtain ⟨-, p, ⟨stage, hp⟩, hd⟩ := ha.dismisses a hin t hc
    cases ht.symm.trans hp
    exact hd.gone hfin
  · exact hx.gone ht hend hne

omit [Service δ] in
/-- An attendant that has no reason to stay may leave. -/
theorem Attended.leave {a : Attendant} {x : Handler} (ha : s.Attended) (hx : s.hub.Exchanging log) (hin : a ∈ s.attendants)
    (ht : s.hub.tasks[a.handler]? = some (.handler x)) (hl : s.MayLeave a x) :
    ({ s with attendants := s.attendants.filter (·.handler != a.handler) } : Server δ).Attended := by
  refine ⟨ha.begun, fun b hb => ha.handles b (List.mem_filter.1 hb).1, ha.relay_lt,
    fun b hb => ha.dismisses b (List.mem_filter.1 hb).1, fun p hp => ?_⟩
  obtain ⟨b, hb, hh⟩ := ha.served p hp
  obtain ⟨hstays, hpresent⟩ := mem_keepers.1 hb
  refine ⟨b, mem_keepers.2 ⟨List.mem_filter.2 ⟨hstays, bne_iff_ne.2 fun heq => ?_⟩, hpresent⟩, hh⟩
  obtain ⟨stage, hb⟩ := hh
  rw [heq] at hb
  cases ht.symm.trans hb
  exact ha.gone hx hin ht hl hp

/-- An attendant whose handler has broken down has the peer dismissed. -/
theorem Attended.dismiss {handler : Nat} {x : Handler} (ha : s.Attended) (ho : s.hub.Orderly log)
    (hrun : s.hub.run? (s.toHub e) = some (s.hub.close x.peer, new)) (ht : s.hub.tasks[handler]? = some (.handler x)) :
    ({ s with
      hub := s.hub.close x.peer
      attendants := s.attendants.map (·.entrust handler s.hub.tasks.length) } : Server δ).Attended := by
  refine ⟨ha.begun, fun b hb => ?_, fun t hr => ?_, fun b hb t hc => ?_, fun p hp => ?_⟩
  · obtain ⟨a, hin, rfl⟩ := List.mem_map.1 hb
    obtain ⟨hlt, p, hp⟩ := ha.handles a hin
    rw [Attendant.entrust_run, Attendant.entrust_handler]
    exact ⟨hlt, p, hp.run hrun⟩
  · exact Nat.lt_of_lt_of_le (ha.relay_lt t hr) (Hub.grows_run hrun).tasks_le
  · obtain ⟨a, hin, rfl⟩ := List.mem_map.1 hb
    rw [Attendant.entrust_run, Attendant.entrust_handler]
    rcases a.entrust_closing? handler s.hub.tasks.length with hsame | ⟨rfl, hnew⟩
    · exact ⟨(ha.dismisses a hin t (hsame ▸ hc)).1, ha.dismisses_run ho hrun hin (hsame ▸ hc)⟩
    · cases hnew.symm.trans hc
      obtain ⟨-, p, stage, hp⟩ := ha.handles a hin
      cases ht.symm.trans hp
      exact ⟨fun hr => Nat.lt_irrefl _ (ha.relay_lt _ hr), p, Hub.Handles.run ⟨stage, hp⟩ hrun, s.hub.dismisses_close p⟩
  · obtain ⟨a, hin, hh⟩ := ha.served p hp
    obtain ⟨hold, hpresent⟩ := mem_keepers.1 hin
    refine ⟨a.entrust handler s.hub.tasks.length, mem_keepers.2 ⟨List.mem_map_of_mem hold, ?_⟩, ?_⟩
    · rw [Attendant.entrust_run]
      exact hpresent
    · rw [Attendant.entrust_run, Attendant.entrust_handler]
      exact hh.run hrun

omit [Service δ] in
/-- A run begins when nobody is connected. -/
theorem Attended.bound (ha : s.Attended) (hshut : s.Shut) (hhub : s'.hub = s.hub) (hruns : s'.runs = s.runs + 1)
    (hattendants : s'.attendants = s.attendants) (hrelay : s'.relay = .waiting) : s'.Attended where
  begun _ := hruns ▸ Nat.succ_pos _
  handles a hin := by
    obtain ⟨hlt, hh⟩ := ha.handles a (hattendants ▸ hin)
    exact ⟨hruns ▸ Nat.lt_succ_of_lt hlt, hhub ▸ hh⟩
  relay_lt t ht := nomatch hrelay.symm.trans ht
  dismisses a hin t hc := by
    obtain ⟨-, p, hp, hd⟩ := ha.dismisses a (hattendants ▸ hin) t hc
    exact ⟨fun ht => (nomatch hrelay.symm.trans ht), p, hhub ▸ hp, hhub ▸ hd⟩
  served p hp := by
    rw [hhub, hshut.members_nil] at hp
    nomatch hp

/-- The attendants are there for what they are there for, whatever happens next. -/
theorem Attended.step (ha : s.Attended) (ho : s.hub.Orderly log) (hx : s.hub.Exchanging log)
    (hshut : s.call = .binding → s.Shut) (hrun : s.hub.run? (s.toHub e) = some (s'.hub, new)) (hc : s.Course d e s' d') :
    s'.Attended := by
  have outside : e ≠ .move .gate → ∀ link, .attach link ∉ s.toHub e := fun hne _ hin => hne (gate_of_attach hin).1
  have busy : s.gate ≠ .listening → ∀ link, .attach link ∉ s.toHub e := fun hne _ hin => hne (gate_of_attach hin).2
  cases hc with
  | aside hnobody => exact ha.still ho hrun hnobody rfl rfl id fun _ => Or.inl
  | disk => exact ha
  | take hr =>
    refine ha.still ho hrun (outside (by simp)) rfl rfl id fun t ht => Or.inr ?_
    cases ht
    exact ⟨rfl, by simp [Hub.broadcastIn, Hub.spawn]⟩
  | passed | heed | cut => exact ha.still ho hrun (outside (by simp)) rfl rfl id (by simp)
  | listen hg => exact ha.still ho hrun (busy (by simp [hg])) rfl rfl (fun _ => by simp [hg]) fun _ => Or.inl
  | letIn hg => exact ha.letIn ho hrun (ha.begun (by simp [hg])) rfl rfl rfl rfl
  | fallen hg => exact ha.still ho hrun (busy (by simp [hg])) rfl rfl (fun hne => absurd rfl hne) fun _ => Or.inl
  | close => exact ha.still ho hrun (outside (by simp)) rfl rfl (fun hne => absurd rfl hne) fun _ => Or.inl
  | fail hg => exact ha.still ho hrun (outside (by simp)) rfl rfl (fun _ => by simp [hg]) fun _ => Or.inl
  | leave hin ht hl => exact ha.leave hx hin ht hl
  | dismiss ht => exact ha.dismiss ho hrun ht
  | bound hc => exact ha.bound (hshut hc) rfl rfl rfl rfl
  | join | stopped | cleared | prepare | unbound | overload | restart | ready | stop | discard =>
    exact ha.still ho hrun (outside (by simp)) rfl rfl id fun _ => Or.inl

/-! ## Permits in use -/

omit [Service δ] in
/-- While the attendants stay and the gate takes none, no more permits come to be in use. -/
theorem permitsUsed_le_of_same (hattendants : s'.attendants = s.attendants) (hruns : s'.runs = s.runs)
    (hgate : s'.gate.holdsPermit.toNat ≤ s.gate.holdsPermit.toNat) : s'.permitsUsed ≤ s.permitsUsed := by
  have hkeepers : s'.keepers = s.keepers := by rw [keepers, keepers, hattendants, hruns]
  rw [permitsUsed_eq, permitsUsed_eq, hkeepers]
  exact Nat.add_le_add_left hgate _

/-- A permit is taken only if one is free. -/
theorem Attended.permitsUsed_le (ha : s.Attended) (hc : s.Course d e s' d') (hu : s.permitsUsed ≤ s.config.capacity) :
    s'.permitsUsed ≤ s.config.capacity := by
  have same : s'.attendants = s.attendants → s'.runs = s.runs → s'.gate.holdsPermit.toNat ≤ s.gate.holdsPermit.toNat →
      s'.permitsUsed ≤ s.config.capacity :=
    fun hattendants hruns hgate => Nat.le_trans (permitsUsed_le_of_same hattendants hruns hgate) hu
  cases hc with
  | listen hg hroom =>
    rw [permitsUsed_eq, hg] at hroom
    exact hroom
  | letIn hg =>
    rw [permitsUsed_eq, hg] at hu
    refine Nat.le_trans ?_ hu
    rw [permitsUsed_eq, keepers, List.filter_append, List.length_append]
    exact Nat.add_le_add_left (List.length_filter_le _ _) _
  | fallen | close => exact same rfl rfl (Nat.zero_le _)
  | fail hg => exact same rfl rfl (hg ▸ Nat.le_refl _)
  | leave =>
    refine Nat.le_trans ?_ hu
    rw [permitsUsed_eq, permitsUsed_eq, keepers, keepers, List.filter_comm]
    exact Nat.add_le_add_right (List.length_filter_le _ _) _
  | dismiss =>
    refine Nat.le_trans (Nat.le_of_eq ?_) hu
    rw [permitsUsed_eq, permitsUsed_eq, keepers, keepers, List.filter_map, List.length_map]
    simp only [Function.comp_def, Attendant.entrust_run]
  | bound =>
    have hnone : s.attendants.filter (fun a => a.run + 1 == s.runs + 1) = [] := by
      refine List.filter_eq_nil_iff.2 fun a hin heq => ?_
      exact Nat.ne_of_lt (ha.handles a hin).1 (Nat.succ.inj (eq_of_beq heq))
    rw [permitsUsed_eq, keepers, hnone]
    exact Nat.zero_le _
  | aside | disk | take | passed | heed | cut | join | stopped | cleared | prepare | unbound | overload | restart | ready
  | stop | discard => exact same rfl rfl (Nat.le_refl _)

omit [Service δ] in
/-- There are at most as many peers as attendants that keep a permit. -/
theorem Attended.members_le (ha : s.Attended) (ho : s.hub.Orderly log) : s.hub.members.length ≤ s.keepers.length := by
  have hsub : s.hub.members ⊆ s.keepers.filterMap fun a => s.hub.client? a.handler := by
    intro p hp
    obtain ⟨a, hin, hh⟩ := ha.served p hp
    exact List.mem_filterMap.2 ⟨a, hin, hh.client?_eq⟩
  exact Nat.le_trans (List.subperm_of_subset ho.members_nodup hsub).length_le (List.length_filterMap_le _ _)

/-- An attendant gives its permit back when the peer is out already. -/
theorem Attended.gone_of_returned {a : Attendant} {p : Peer} {run : Nat} (ha : s.Attended) (hx : s.hub.Exchanging log)
    (hc : s.Course d e s' d') (hin : a ∈ s.attendants) (hback : ∀ b ∈ s'.attendants, b.handler ≠ a.handler)
    (hp : s.hub.Handles a.handler p run) : p ∉ s.hub.members := by
  cases hc with
  | @leave b x hb ht hl =>
    by_cases heq : a.handler = b.handler
    · obtain ⟨stage, hp⟩ := hp
      rw [heq] at hp
      cases ht.symm.trans hp
      exact ha.gone hx hb ht hl
    · exact absurd rfl (hback a (List.mem_filter.2 ⟨hin, bne_iff_ne.2 heq⟩))
  | letIn => exact absurd rfl (hback a (List.mem_append_left _ hin))
  | dismiss => exact absurd (a.entrust_handler _ _) (hback _ (List.mem_map_of_mem hin))
  | _ => exact absurd rfl (hback a hin)

/-- What a server keeps its permits for. -/
structure Permitted (config : ServerConfig) (s : Server δ) : Prop where
  /-- Every peer is served in the present run, and an attendant keeps a permit for it. -/
  served : ∀ p ∈ s.hub.members, ∃ a ∈ s.keepers, s.hub.Handles a.handler p a.run
  members_le : s.hub.members.length ≤ s.keepers.length
  /-- The attendants keep their permits, and the gate has one while it waits for a client, and, if accepting fails, until it has
  closed every peer and ends. -/
  used_le : s.keepers.length + s.gate.holdsPermit.toNat ≤ max config.maxConnections.toNat 1
  /-- When an attendant gives its permit back, the peer of its handler is out already, however the handler has ended. -/
  returned : ∀ d e s' d', s.after? d e = some (s', d') → ∀ a ∈ s.attendants, (∀ b ∈ s'.attendants, b.handler ≠ a.handler) →
    ∀ p run, s.hub.Handles a.handler p run → p ∉ s.hub.members
  /-- When no attendant of the run is left, nobody is connected, and every permit is free but the one that the gate has. -/
  drained : s.keepers = [] → s.hub.members = [] ∧ s.permitsUsed = s.gate.holdsPermit.toNat

/-- At every moment of every run of a server that is used by one at a time, whatever its clients and its device do, its permits
are kept for those who are connected. -/
theorem permits_kept {number : Nat} {config : ServerConfig} {device : δ} {s : Server δ} {d d' : Disk} {events : List Event}
    {es : List Hub.Event} (hr : (create number config device).run? d events = some (s, d', es))
    (hu : (create number config device).usedInTurn d false events = true) : s.Permitted config := by
  obtain ⟨past, notes, offers, log, hrelaying, hconfig, ha, hused⟩ :=
    Relaying.run_preserves (P := fun s _ _ => s.config = config ∧ s.Attended ∧ s.permitsUsed ≤ config.capacity)
      (fun hr ⟨hconfig, ha, hused⟩ _ he => by
        have hc := course_after? he
        obtain ⟨⟨new, hrun⟩, -⟩ := mirrors_after? (Hub.orderly_run hr.moment) hr.unused he
        refine ⟨hc.config_eq.trans hconfig, ?_, ?_⟩
        · exact ha.step (Hub.orderly_run hr.moment) (Hub.exchanging_run hr.moment)
            (fun hbinding => hr.shut (by rw [awaitsRun, hbinding])) hrun hc
        · exact hconfig ▸ ha.permitsUsed_le hc (hconfig ▸ hused))
      (relaying_create number config device) ⟨rfl, attended_create number config device, Nat.zero_le _⟩ hr hu
  have ho := Hub.orderly_run hrelaying.moment
  have hx := Hub.exchanging_run hrelaying.moment
  refine ⟨ha.served, ha.members_le ho, hused, fun d₁ e s₁ d₂ he a hin hback p run hp => ?_, fun hnone => ?_⟩
  · exact ha.gone_of_returned hx (course_after? he) hin hback hp
  · have hle := ha.members_le ho
    rw [hnone] at hle
    rw [permitsUsed_eq, hnone]
    exact ⟨List.eq_nil_of_length_eq_zero (Nat.le_zero.1 hle), Nat.zero_add _⟩

/-- A device that breaks down at every request. -/
structure Brittle where

instance : Service Brittle where
  deviceId _ := 1
  kind _ := "brittle"
  execute d _ := (none, d)
  tick d g := ([], d, g)

/-- A server for one client at a time lets a client in whose request breaks the device down. The peer is dismissed, the permit
is given back, and the gate takes it for the next client; then accepting fails. -/
def brokenDown : List Event :=
  let step (t : Nat) : Event := .move (.hub (.advance t Frame.size))
  [.start, .move (.caller []), .move (.caller []), .move .gate, .arrive 0 (.fresh 4096),
    .client 0 (.feed (Frame.read 1 64).encode), .move .gate, step 0, step 0, .move (.attend 0), step 1, step 1,
    .move (.attend 0), .move .gate, .move (.gateFails [])]

/-- As long as the peer of the handler that broke down is connected, its permit is kept; in the end only the gate has one, which
it keeps while it closes the peers. -/
theorem permits_kept_brokenDown :
    ∃ s₁ disk₁ es₁ s disk es, (create 0 oneAtOnce Brittle.mk).run? .empty (brokenDown.take 10) = some (s₁, disk₁, es₁) ∧
      (create 0 oneAtOnce Brittle.mk).run? .empty brokenDown = some (s, disk, es) ∧
      (create 0 oneAtOnce Brittle.mk).usedInTurn .empty false brokenDown = true ∧ s₁.Permitted oneAtOnce ∧
      s.Permitted oneAtOnce ∧ s₁.hub.members = [0] ∧ s₁.keepers = [⟨0, 0, some 1⟩] ∧ s.hub.members = [] ∧
      s.gate = .failing 2 ∧ s.permitsUsed = 1 := by
  have hcrash : ((create 0 oneAtOnce Brittle.mk).run? .empty (brokenDown.take 10)).map
      (fun x => (x.1.hub.members, x.1.keepers)) = some ([0], [⟨0, 0, some 1⟩]) := by
    decide +kernel
  have hend : ((create 0 oneAtOnce Brittle.mk).run? .empty brokenDown).map (fun x => (x.1.keepers, x.1.gate)) =
      some ([], .failing 2) := by
    decide +kernel
  have hused₁ : (create 0 oneAtOnce Brittle.mk).usedInTurn .empty false (brokenDown.take 10) = true := by decide +kernel
  have hused : (create 0 oneAtOnce Brittle.mk).usedInTurn .empty false brokenDown = true := by decide +kernel
  obtain ⟨⟨s₁, disk₁, es₁⟩, hr₁, heq₁⟩ := Option.map_eq_some_iff.1 hcrash
  obtain ⟨⟨s, disk, es⟩, hr, heq⟩ := Option.map_eq_some_iff.1 hend
  obtain ⟨hmembers₁, hkeepers₁⟩ := Prod.mk.inj heq₁
  obtain ⟨hkeepers, hgate⟩ := Prod.mk.inj heq
  have hkept := permits_kept hr hused
  obtain ⟨hmembers, hpermits⟩ := hkept.drained hkeepers
  rw [show s.gate = .failing 2 from hgate] at hpermits
  exact ⟨s₁, disk₁, es₁, s, disk, es, hr₁, hr, hused, permits_kept hr₁ hused₁, hkept, hmembers₁, hkeepers₁, hmembers,
    hgate, hpermits⟩

end Peripheral.Server
