import Peripheral.Settings.Load

/-!
# Which settings are loaded

Settings that are loaded are fit for use, whatever the environment says and whatever the file system answers: they are those
of the file that the environment points to if this file is there, can be read and holds settings that are fit, and else the
default ones as a whole (`loads_whole_or_default`). Settings are fit if there is a device and no two devices have the same
socket path, in whatever order the devices come (`flaw?_eq_none_iff`, `IsFit.perm`).
-/

namespace Peripheral

namespace Path

/-! ## Equal paths -/

/-- Paths are the same if their components are. -/
def Same (p q : String) : Prop := components p = components q

/-- There is always something between separators, if only nothing. -/
theorem split_ne_nil (cs : List Char) : split cs ≠ [] := by
  cases cs with
  | nil => simp [split]
  | cons c rest =>
    rw [split]
    split
    · simp
    · split <;> simp

theorem split_append (cs ds : List Char) : split (cs ++ '/' :: ds) = split cs ++ split ds := by
  induction cs with
  | nil => simp [split]
  | cons c rest ih =>
    by_cases hc : c = '/'
    · simp [split, hc, ih]
    · obtain ⟨s, more, hs⟩ := List.exists_cons_of_ne_nil (split_ne_nil rest)
      simp [split, hc, ih, hs]

/-- What stands between separators and is no name does not count. -/
theorem components_inner {p q : String} {s : List Char} (hs : split s = [[]] ∨ split s = [['.']]) :
    components (String.ofList (p.toList ++ '/' :: s ++ '/' :: q.toList)) =
      components (String.ofList (p.toList ++ '/' :: q.toList)) := by
  have hsplit : split (p.toList ++ '/' :: s ++ '/' :: q.toList) = split p.toList ++ split s ++ split q.toList := by
    rw [split_append, split_append]
  have habs : isAbsolute (String.ofList (p.toList ++ '/' :: s ++ '/' :: q.toList)) =
      isAbsolute (String.ofList (p.toList ++ '/' :: q.toList)) := by
    cases hp : p.toList <;> simp [isAbsolute]
  have hhead : (split (p.toList ++ '/' :: s ++ '/' :: q.toList)).head? = (split (p.toList ++ '/' :: q.toList)).head? := by
    obtain ⟨t, more, ht⟩ := List.exists_cons_of_ne_nil (split_ne_nil p.toList)
    rw [hsplit, split_append, ht]
    rfl
  have hnames : names (String.ofList (p.toList ++ '/' :: s ++ '/' :: q.toList)) =
      names (String.ofList (p.toList ++ '/' :: q.toList)) := by
    rw [names, names, String.toList_ofList, String.toList_ofList, hsplit, split_append]
    rcases hs with hs | hs <;> simp [hs]
  simp only [components, habs, hnames, String.toList_ofList, hhead]

/-- Repeated separators count once. -/
theorem same_slashes (p q : String) : Same (p ++ "//" ++ q) (p ++ "/" ++ q) := by
  have h := components_inner (p := p) (q := q) (s := []) (Or.inl rfl)
  have hl : p ++ "//" ++ q = String.ofList (p.toList ++ '/' :: [] ++ '/' :: q.toList) := by
    rw [← String.toList_inj]
    simp
  have hr : p ++ "/" ++ q = String.ofList (p.toList ++ '/' :: q.toList) := by
    rw [← String.toList_inj]
    simp
  rw [Same, hl, hr, h]

/-- A dot between separators does not count. -/
theorem same_dot (p q : String) : Same (p ++ "/./" ++ q) (p ++ "/" ++ q) := by
  have h := components_inner (p := p) (q := q) (s := ['.']) (Or.inr rfl)
  have hl : p ++ "/./" ++ q = String.ofList (p.toList ++ '/' :: ['.'] ++ '/' :: q.toList) := by
    rw [← String.toList_inj]
    simp
  have hr : p ++ "/" ++ q = String.ofList (p.toList ++ '/' :: q.toList) := by
    rw [← String.toList_inj]
    simp
  rw [Same, hl, hr, h]

end Path

namespace Settings

/-! ## Fit settings -/

/-- Settings are fit for use if there is a device and no two devices share a socket. -/
structure IsFit (s : Settings) : Prop where
  devices_ne_nil : s.devices ≠ []
  distinct : s.devices.Pairwise fun c d => ¬Path.Same c.server.socketPath d.server.socketPath

/-- Nothing is found repeated exactly if no two paths are the same, and none was seen before. -/
theorem firstRepeated?_eq_none_iff {seen : List (List Path.Component)} {paths : List String} :
    firstRepeated? seen paths = none ↔
      (∀ p ∈ paths, Path.components p ∉ seen) ∧ paths.Pairwise fun p q => ¬Path.Same p q := by
  induction paths generalizing seen with
  | nil => simp [firstRepeated?]
  | cons p rest ih =>
    rw [firstRepeated?]
    by_cases hp : Path.components p ∈ seen
    · simp [hp]
    · rw [if_neg (by simpa using hp), ih, List.pairwise_cons]
      constructor
      · rintro ⟨hfresh, hrest⟩
        refine ⟨?_, fun q hq hsame => (hfresh q hq) (by simp [hsame.symm]), hrest⟩
        intro q hq
        rcases List.mem_cons.1 hq with rfl | hq
        · exact hp
        · exact fun hin => hfresh q hq (List.mem_cons_of_mem _ hin)
      · rintro ⟨hfresh, hdiff, hrest⟩
        refine ⟨fun q hq hin => ?_, hrest⟩
        rcases List.mem_cons.1 hin with heq | hin
        · exact hdiff q hq heq.symm
        · exact hfresh q (List.mem_cons_of_mem _ hq) hin

/-- Nothing is wrong with settings exactly when they are fit. -/
theorem flaw?_eq_none_iff {s : Settings} : s.flaw? = none ↔ s.IsFit := by
  rw [flaw?]
  by_cases hnil : s.devices = []
  · simp only [hnil, List.isEmpty_nil, if_true, reduceCtorEq, false_iff]
    exact fun hfit => hfit.devices_ne_nil hnil
  · rw [if_neg (by simpa using hnil), Option.map_eq_none_iff, firstRepeated?_eq_none_iff, List.pairwise_map]
    exact ⟨fun h => ⟨hnil, h.2⟩, fun h => ⟨by simp, h.distinct⟩⟩

/-- Whether settings are fit does not depend on the order of the devices. -/
theorem IsFit.perm {s t : Settings} (hfit : s.IsFit) (hperm : s.devices.Perm t.devices) : t.IsFit := by
  refine ⟨fun hnil => hfit.devices_ne_nil ?_, ?_⟩
  · rw [hnil] at hperm
    exact hperm.eq_nil
  · exact (hperm.pairwise_iff fun hne hsame => hne hsame.symm).1 hfit.distinct

/-- The default settings are fit for use. -/
theorem isFit_default : (default : Settings).IsFit := by
  refine ⟨?_, ?_⟩
  · exact List.cons_ne_nil _ _
  · exact List.pairwise_singleton _ _

/-! ## The file -/

end Settings

/-- What can be read off a result is its value. -/
theorem eq_ok_of_toOption {ε α : Type} {e : Except ε α} {a : α} (h : e.toOption = some a) : e = .ok a := by
  cases e with
  | error _ => nomatch h
  | ok _ =>
    cases h
    rfl

/-- A text of the system that is Unicode is that of its characters. -/
theorem SystemText.eq_ofString {t : SystemText} {s : String} (h : t.text? = some s) : t = ofString s := by
  obtain ⟨pieces⟩ := t
  obtain ⟨cs, hcs, rfl⟩ := Option.map_eq_some_iff.1 h
  rw [ofString, String.toList_ofList]
  congr
  dsimp only at hcs
  clear h
  induction pieces generalizing cs with
  | nil =>
    cases hcs
    rfl
  | cons p rest ih =>
    rw [List.mapM_cons] at hcs
    obtain ⟨c, hc, hcs⟩ := Option.bind_eq_some_iff.1 hcs
    obtain ⟨ds, hds, heq⟩ := Option.bind_eq_some_iff.1 hcs
    cases heq
    cases p with
    | stray => cases hc
    | char =>
      cases hc
      rw [List.map_cons, ← ih ds hds]

/-- A text of the system is Unicode exactly if it is that of some characters. -/
theorem SystemText.text?_eq_some_iff {t : SystemText} {s : String} : t.text? = some s ↔ t = ofString s := by
  constructor
  · exact eq_ofString
  · rintro rfl
    exact text?_ofString s

/-- Which file the environment points to: the one that is named; else the one below the configuration directory, if that is
an absolute path in Unicode; else the one below the home. -/
inductive Environment.PointsTo (e : Environment) : SystemText → Prop
  | explicit {p : SystemText} : e.explicit = some p → PointsTo e p
  | configHome {p : SystemText} {text : String} : e.explicit = none → e.configHome = some p → p.text? = some text →
      Path.isAbsolute text = true → PointsTo e ((p.join (.ofString "regmodel")).join (.ofString "settings.json"))
  | home : e.explicit = none →
      (∀ p text, e.configHome = some p → p.text? = some text → Path.isAbsolute text = false) →
      PointsTo e (((e.home.join (.ofString ".config")).join (.ofString "regmodel")).join (.ofString "settings.json"))

/-- The file that settings are read from is one that the environment points to. -/
theorem Environment.pointsTo_settingsPath (e : Environment) : e.PointsTo e.settingsPath := by
  rw [settingsPath]
  cases hexplicit : e.explicit with
  | some p => exact .explicit hexplicit
  | none =>
    dsimp only
    rw [settingsDirectory]
    cases hconfig : e.configHome with
    | none => exact .home hexplicit (by simp [hconfig])
    | some p =>
      rw [Option.bind_some]
      cases htext : p.text? with
      | none =>
        refine .home hexplicit fun q text hq ht => ?_
        cases hconfig.symm.trans hq
        nomatch htext.symm.trans ht
      | some text =>
        dsimp only
        by_cases habs : Path.isAbsolute text = true
        · rw [if_pos habs, ← SystemText.text?_eq_some_iff.1 htext]
          exact .configHome hexplicit hconfig htext habs
        · rw [if_neg habs]
          refine .home hexplicit fun q text' hq ht => ?_
          cases hconfig.symm.trans hq
          cases htext.symm.trans ht
          exact Bool.eq_false_iff.2 habs

/-- Nothing else is pointed to. -/
theorem Environment.PointsTo.unique {e : Environment} {p q : SystemText} (hp : e.PointsTo p) (hq : e.PointsTo q) : p = q := by
  cases hp with
  | explicit hp =>
    cases hq with
    | explicit hq => exact Option.some.inj (hp.symm.trans hq)
    | configHome hq | home hq => nomatch hp.symm.trans hq
  | configHome hp hpx hpt hpa =>
    cases hq with
    | explicit hq => nomatch hp.symm.trans hq
    | configHome _ hqx =>
      cases hpx.symm.trans hqx
      rfl
    | home _ hno =>
      have hnot := hno _ _ hpx hpt
      nomatch hnot.symm.trans hpa
  | home hp hno =>
    cases hq with
    | explicit hq => nomatch hp.symm.trans hq
    | configHome _ hqx hqt hqa =>
      have hnot := hno _ _ hqx hqt
      nomatch hnot.symm.trans hqa
    | home => rfl

namespace Settings

/-! ## Loading -/

/-- A file holds settings: it is there, it can be read, and its text is that of settings that are fit for use. -/
structure Holds (f : Files) (path : SystemText) (s : Settings) : Prop where
  exists_eq : f.exists? path = true
  parsed : ∃ text, f.readText path = .ok text ∧ parse text = .ok s
  fit : s.IsFit

theorem mapError_ok {ε ε' α : Type} (f : ε → ε') (a : α) : (Except.ok a : Except ε α).mapError f = .ok a := rfl

theorem mapError_error {ε ε' α : Type} (f : ε → ε') (e : ε) : (Except.error e : Except ε α).mapError f = .error (f e) := rfl

/-- Settings are read from a file exactly if its text is theirs and they are fit. -/
theorem loadFrom_eq_ok_iff {f : Files} {path : SystemText} {s : Settings} :
    loadFrom f path = .ok s ↔ (∃ text, f.readText path = .ok text ∧ parse text = .ok s) ∧ s.IsFit := by
  rw [← flaw?_eq_none_iff, loadFrom]
  cases hread : f.readText path with
  | error fault => simp [mapError_error, Bind.bind, Except.bind]
  | ok text =>
    cases hparse : parse text with
    | error fault => simp [mapError_ok, mapError_error, Bind.bind, Except.bind, hparse]
    | ok t =>
      cases hflaw : t.flaw? with
      | some flaw =>
        simp only [mapError_ok, Bind.bind, Except.bind, hparse, hflaw, Except.ok.injEq, reduceCtorEq, exists_eq_left',
          false_iff, not_and]
        rintro rfl
        simp [hflaw]
      | none =>
        simp only [mapError_ok, Bind.bind, Except.bind, hparse, hflaw, Except.ok.injEq, exists_eq_left']
        constructor
        · rintro rfl
          exact ⟨rfl, hflaw⟩
        · exact fun h => h.1

/-- What is loaded is what the file holds, or else the default settings. -/
theorem load_cases (e : Environment) (f : Files) :
    Holds f e.settingsPath (load e f).1 ∨ (∀ s, ¬Holds f e.settingsPath s) ∧ (load e f).1 = default := by
  rw [load]
  cases hexists : f.exists? e.settingsPath with
  | false => exact Or.inr ⟨fun s h => by simp [h.exists_eq] at hexists, rfl⟩
  | true =>
    simp only [if_true]
    cases hload : loadFrom f e.settingsPath with
    | ok s =>
      obtain ⟨hparsed, hfit⟩ := loadFrom_eq_ok_iff.1 hload
      exact Or.inl ⟨hexists, hparsed, hfit⟩
    | error fault =>
      refine Or.inr ⟨fun s h => ?_, rfl⟩
      have hok := loadFrom_eq_ok_iff.2 ⟨h.parsed, h.fit⟩
      nomatch hload.symm.trans hok

/-- A file holds the settings of one text only. -/
theorem Holds.unique {f : Files} {path : SystemText} {s t : Settings} (hs : Holds f path s) (ht : Holds f path t) : s = t := by
  obtain ⟨text, hread, hparse⟩ := hs.parsed
  obtain ⟨text', hread', hparse'⟩ := ht.parsed
  cases hread.symm.trans hread'
  exact Except.ok.inj (hparse.symm.trans hparse')

/-- Whatever the environment says and whatever the file system answers, settings are loaded that are fit for use: those that
the one file holds that the environment points to, and in every other case the default ones. Nothing is wrong with settings
exactly when there is a device and no two devices have socket paths with the same components, whatever the order of the
devices; repeated separators and dots between them do not make paths different. -/
theorem loads_whole_or_default (e : Environment) (f : Files) :
    (load e f).1.flaw? = none ∧
    (∃ path, (∀ p, e.PointsTo p ↔ p = path) ∧ (∀ s, Holds f path s → (load e f).1 = s) ∧
      ((∀ s, ¬Holds f path s) → (load e f).1 = default)) ∧
    (∀ s : Settings, s.flaw? = none ↔ s.IsFit) ∧
    (∀ s t : Settings, s.devices.Perm t.devices → (s.flaw? = none ↔ t.flaw? = none)) ∧
    (∀ p q, Path.Same (p ++ "//" ++ q) (p ++ "/" ++ q) ∧ Path.Same (p ++ "/./" ++ q) (p ++ "/" ++ q)) := by
  refine ⟨?_, ⟨e.settingsPath, fun p => ⟨fun hp => ?_, ?_⟩, fun s hs => ?_, fun hnone => ?_⟩, fun s => flaw?_eq_none_iff,
    fun s t hperm => ?_, fun p q => ⟨Path.same_slashes p q, Path.same_dot p q⟩⟩
  · rw [flaw?_eq_none_iff]
    rcases load_cases e f with hholds | ⟨-, hdefault⟩
    · exact hholds.fit
    · rw [hdefault]
      exact isFit_default
  · exact hp.unique e.pointsTo_settingsPath
  · rintro rfl
    exact e.pointsTo_settingsPath
  · rcases load_cases e f with hholds | ⟨hnone, -⟩
    · exact hholds.unique hs
    · exact absurd hs (hnone s)
  · rcases load_cases e f with hholds | ⟨-, hdefault⟩
    · exact absurd hholds (hnone _)
    · exact hdefault
  · rw [flaw?_eq_none_iff, flaw?_eq_none_iff]
    exact ⟨fun hfit => hfit.perm hperm, fun hfit => hfit.perm hperm.symm⟩

/-- The path of the one file of a file system. -/
def shared : SystemText := .ofString "/etc/regmodel.json"

/-- A file system whose one file is for two devices, with the sockets at these paths. -/
def twoSockets (p q : String) : Files where
  exists? path := path == shared
  read _ := .ok ("\x7b\"devices\": [\x7b\"server\": \x7b\"socket_path\": \"".toUTF8.toList ++ p.toUTF8.toList ++
    "\"\x7d\x7d, \x7b\"server\": \x7b\"socket_path\": \"".toUTF8.toList ++ q.toUTF8.toList ++ "\"\x7d\x7d]\x7d".toUTF8.toList)

/-- The environment points to the file. -/
def pointing : Environment := ⟨some shared, none, .ofString ""⟩

/-- What a file holds is loaded, and if its sockets have the same path but for the spelling, the default settings are. -/
theorem loads_whole_or_default_twoSockets :
    (∃ s : Settings, s.devices.map (·.server.socketPath) = ["/run/a", "/run/b"] ∧
      Holds (twoSockets "/run/a" "/run/b") shared s ∧ (load pointing (twoSockets "/run/a" "/run/b")).1 = s) ∧
    (∀ s, ¬Holds (twoSockets "/run/a" "/run//./a") shared s) ∧
      (load pointing (twoSockets "/run/a" "/run//./a")).1 = default := by
  have hread : ((loadFrom (twoSockets "/run/a" "/run/b") shared).toOption.map fun s =>
      s.devices.map (·.server.socketPath)) = some ["/run/a", "/run/b"] := by decide +kernel
  have hunfit : (loadFrom (twoSockets "/run/a" "/run//./a") shared).toOption = none := by decide +kernel
  obtain ⟨s, hs, hpaths⟩ := Option.map_eq_some_iff.1 hread
  have hholds : Holds (twoSockets "/run/a" "/run/b") shared s := by
    obtain ⟨hparsed, hfit⟩ := loadFrom_eq_ok_iff.1 (eq_ok_of_toOption hs)
    exact ⟨by decide +kernel, hparsed, hfit⟩
  have hnone : ∀ s, ¬Holds (twoSockets "/run/a" "/run//./a") shared s := by
    intro s h
    rw [loadFrom_eq_ok_iff.2 ⟨h.parsed, h.fit⟩] at hunfit
    cases hunfit
  obtain ⟨-, ⟨path, honly, hloads, -⟩, -⟩ := loads_whole_or_default pointing (twoSockets "/run/a" "/run/b")
  obtain ⟨-, ⟨path', honly', -, hdefault⟩, -⟩ := loads_whole_or_default pointing (twoSockets "/run/a" "/run//./a")
  obtain rfl := (honly shared).1 (.explicit rfl)
  obtain rfl := (honly' shared).1 (.explicit rfl)
  exact ⟨⟨s, hpaths, hholds, hloads s hholds⟩, hnone, hdefault hnone⟩

end Settings

end Peripheral
