import Peripheral.Proofs.Json.Shapes

/-!
# Reading records

A record is read from every object whose members describe it, in whatever order they stand and whatever stands between them,
and from every array of its slots. A value of one of several kinds is read from every object that names its kind somewhere:
what stands beside the tag is kept and taken apart as a record at the end.
-/

namespace Peripheral.Json

/-! ## Slots and fields -/

/-- The field is the one of the slot, and reads its values. -/
structure Slot.Reads {σ : Type} (s : Slot σ) (f : Field σ) : Prop where
  name_eq : f.name = s.name
  required_eq : f.required = s.required
  read : ∀ {j v}, s.form.means j v → ∀ {ts}, Phrase (.value j) ts → ∀ x rest, f.read (ts ++ rest) x = .ok (s.put v x, rest)

/-- The field is the one of the slot, and takes its values apart. -/
structure Slot.Parts {σ : Type} (s : Slot σ) (f : Field σ) : Prop where
  name_eq : f.name = s.name
  required_eq : f.required = s.required
  part : ∀ {j v}, s.form.means j v → ∀ x, f.ofJson? j x = some (s.put v x)

/-- A field that reads the values of a slot is one for it. -/
theorem Slot.reads_of {σ α : Type} {name : String} {required : Bool} {shape : Shape α} {form : Form α} {get : σ → α}
    {put : α → σ → σ} (h : shape.Reads form) :
    Slot.Reads ⟨α, name, required, form, get, put⟩ (.of name required shape put) where
  name_eq := rfl
  required_eq := rfl
  read := by
    intro j v hj ts hts x rest
    have hread := h hj hts rest
    simp only [Field.of, hread]
    rfl

theorem Slot.parts_of {σ α : Type} {name : String} {required : Bool} {shape : Shape α} {form : Form α} {get : σ → α}
    {put : α → σ → σ} (h : shape.Parts form) :
    Slot.Parts ⟨α, name, required, form, get, put⟩ (.of name required shape put) where
  name_eq := rfl
  required_eq := rfl
  part := by
    intro j v hj x
    have hpart := h hj
    simp only [Field.of, hpart]
    rfl

section Fields

variable {σ : Type} {R : Slot σ → Field σ → Prop} {slots : List (Slot σ)} {fields : List (Field σ)}

/-- The field that is found by the name of a slot is the one of the slot. -/
theorem find?_slot (hname : ∀ {s f}, R s f → f.name = s.name) (h : List.Forall₂ R slots fields)
    (hnodup : (slots.map (·.name)).Nodup) {s : Slot σ} (hs : s ∈ slots) {name : String} (hn : name = s.name) :
    ∃ f, fields.find? (fun f => f.name = name) = some f ∧ R s f := by
  subst hn
  induction h with
  | nil => exact (List.not_mem_nil hs).elim
  | @cons t f slots fields htf _ ih =>
    obtain ⟨hfresh, hrest⟩ := List.nodup_cons.1 hnodup
    rcases List.mem_cons.1 hs with rfl | hs
    · exact ⟨f, List.find?_cons_of_pos (by simp [hname htf]), htf⟩
    · have hne : t.name ≠ s.name := fun heq => hfresh (List.mem_map.2 ⟨s, hs, heq.symm⟩)
      obtain ⟨g, hg, hsg⟩ := ih hrest hs
      refine ⟨g, ?_, hsg⟩
      rw [List.find?_cons_of_neg (by simp [hname htf, hne]), hg]

/-- No field is found by a name that no slot has. -/
theorem find?_aside (hname : ∀ {s f}, R s f → f.name = s.name) (h : List.Forall₂ R slots fields) {name : String}
    (hn : ¬ ∃ s ∈ slots, s.name = name) : fields.find? (fun f => f.name = name) = none := by
  induction h with
  | nil => rfl
  | @cons t f slots fields htf _ ih =>
    have hne : t.name ≠ name := fun heq => hn ⟨t, List.mem_cons_self, heq⟩
    rw [List.find?_cons_of_neg (by simp [hname htf, hne])]
    exact ih fun ⟨s, hs, heq⟩ => hn ⟨s, List.mem_cons_of_mem _ hs, heq⟩

/-- Nothing is missing if the slots that must be given were given. -/
theorem incomplete_eq_false (hfield : ∀ {s f}, R s f → f.name = s.name ∧ f.required = s.required)
    (h : List.Forall₂ R slots fields) {seen : List String} (hseen : ∀ s ∈ slots, s.required = true → s.name ∈ seen) :
    Shape.incomplete fields seen = false := by
  induction h with
  | nil => rfl
  | @cons t f slots fields htf _ ih =>
    obtain ⟨hname, hrequired⟩ := hfield htf
    have hhere : (f.required && !seen.contains f.name) = false := by
      rw [hname, hrequired]
      cases ht : t.required with
      | false => rfl
      | true => simp [hseen t List.mem_cons_self ht]
    have hrest := ih fun s hs => hseen s (List.mem_cons_of_mem _ hs)
    rw [Shape.incomplete, List.any_cons, hhere]
    exact hrest

end Fields

/-! ## Objects -/

/-- The next name stands behind the separator. -/
theorem nextName_separator (first : Bool) (q : Quoted) (ts : List Token) :
    Shape.nextName first (separator first ++ .text q :: ts) = .ok (some (q, ts)) := by
  cases first <;> rfl

/-- There is no next name at the end of an object. -/
theorem nextName_end (first : Bool) (ts : List Token) : Shape.nextName first (.closeObject :: ts) = .ok none := rfl

/-- The words of members are as many as there are members, at least. -/
theorem length_members {first : Bool} {ms : List (List Char × Json)} {ts : List Token} (h : Phrase (.members first ms) ts) :
    ms.length ≤ ts.length := by
  induction ms generalizing first ts with
  | nil => exact Nat.zero_le _
  | cons m ms ih =>
    cases h with
    | member _ hq hj hms =>
      have := ih hms
      simp
      omega

namespace Layout

variable {σ : Type} {l : Layout σ} {fields : List (Field σ)}

/-- The members of an object are read to their end, and lead where they lead. By induction on the members. -/
theorem membersWithin_fill (hf : List.Forall₂ Slot.Reads l.slots fields) {seen : List String} {x y : σ}
    {ms : List (List Char × Json)} (h : l.Fill seen x ms y) {first : Bool} {ts : List Token}
    (hts : Phrase (.members first ms) ts) {n : Nat} (hn : ms.length < n) (rest : List Token) :
    Shape.membersWithin fields n first seen x (ts ++ .closeObject :: rest) = .ok (y, rest) := by
  have hname : ∀ {s : Slot σ} {f : Field σ}, s.Reads f → f.name = s.name := fun h => h.name_eq
  induction h generalizing first ts n with
  | done hseen =>
    cases hts
    obtain ⟨m, rfl⟩ := Nat.exists_eq_add_of_lt hn
    have hcomplete := incomplete_eq_false (fun h => ⟨h.name_eq, h.required_eq⟩) hf hseen
    simp [Shape.membersWithin, nextName_end, bind, Except.bind, hcomplete]
  | @slot seen x y s n j v ms hs hsn hfresh hv _ ih =>
    obtain ⟨m, rfl⟩ := Nat.exists_eq_add_of_lt hn
    cases hts with
    | @member _ q _ _ _ us vs hq hus hvs =>
      obtain ⟨f, hfind, hread⟩ := find?_slot hname hf l.nodup hs hsn
      have hvalue := hread.read hv hus x (vs ++ .closeObject :: rest)
      have hmore := ih hvs (n := ms.length + 1 + m) (by omega)
      have hseen : seen.contains (String.ofList n) = false := by simpa [hsn] using hfresh
      rw [← hsn] at hmore
      simp only [List.append_assoc, List.cons_append]
      rw [Shape.membersWithin, nextName_separator]
      simp only [bind, Except.bind, hq, hfind, hseen, Bool.false_eq_true, if_false, Shape.afterColon, hvalue]
      exact hmore
  | @aside seen x y n j ms hunknown _ _ ih =>
    obtain ⟨m, rfl⟩ := Nat.exists_eq_add_of_lt hn
    cases hts with
    | @member _ q _ _ _ us vs hq hus hvs =>
      have hfind := find?_aside hname hf hunknown
      have hskip := skipValue_phrase hus (vs ++ .closeObject :: rest)
      have hmore := ih hvs (n := ms.length + 1 + m) (by omega)
      simp only [List.append_assoc, List.cons_append]
      rw [Shape.membersWithin, nextName_separator]
      simp only [bind, Except.bind, hq, hfind, Shape.afterColon, hskip]
      exact hmore

/-- The members of an object that was read before lead where they lead. -/
theorem ofMembers?_fill (hf : List.Forall₂ Slot.Parts l.slots fields) {seen : List String} {x y : σ}
    {ms : List (List Char × Json)} (h : l.Fill seen x ms y) : Shape.ofMembers? fields seen x ms = some y := by
  have hname : ∀ {s : Slot σ} {f : Field σ}, s.Parts f → f.name = s.name := fun h => h.name_eq
  induction h with
  | done hseen =>
    have hcomplete := incomplete_eq_false (fun h => ⟨h.name_eq, h.required_eq⟩) hf hseen
    simp [Shape.ofMembers?, hcomplete]
  | @slot seen x y s n j v ms hs hsn hfresh hv _ ih =>
    obtain ⟨f, hfind, hpart⟩ := find?_slot hname hf l.nodup hs hsn
    have hvalue := hpart.part hv x
    have hseen : seen.contains (String.ofList n) = false := by simpa [hsn] using hfresh
    rw [← hsn] at ih
    rw [Shape.ofMembers?]
    simp only [hfind, hseen, Bool.false_eq_true, if_false, hvalue, bind, Option.bind]
    exact ih
  | @aside seen x y n j ms hunknown _ _ ih =>
    have hfind := find?_aside hname hf hunknown
    rw [Shape.ofMembers?]
    simp only [hfind]
    exact ih

/-! ## Arrays -/

/-- The items of an array are read to their end, and lead where they lead. By induction on the items. -/
theorem positions_lists {slots : List (Slot σ)} (hf : List.Forall₂ Slot.Reads slots fields) {x y : σ} {js : List Json}
    (h : Lists slots x js y) {first : Bool} {ts : List Token} (hts : Phrase (.items first js) ts) (rest : List Token) :
    Shape.positions fields first x (ts ++ .closeArray :: rest) = .ok (y, rest) := by
  induction h generalizing fields first ts with
  | @short slots x hoptional =>
    cases hts
    have hgiven : ∀ s ∈ slots, s.required = true → s.name ∈ ([] : List String) :=
      fun s hs hrequired => nomatch hrequired.symm.trans (hoptional s hs)
    have hcomplete := incomplete_eq_false (fun h => ⟨h.name_eq, h.required_eq⟩) hf hgiven
    cases hf with
    | nil => rfl
    | cons _ _ => simp [Shape.positions, Shape.nextItem, bind, Except.bind, hcomplete]
  | @item s slots x y j js v hv _ ih =>
    cases hf with
    | cons hread hmore =>
      cases hts with
      | @item _ _ _ us vs hus hvs =>
        have hvalue := hread.read hv hus x (vs ++ .closeArray :: rest)
        rw [List.append_assoc, Shape.positions, Shape.nextItem_separator hus]
        simp only [bind, Except.bind, hvalue]
        exact ih hmore hvs

/-- The items of an array that was read before lead where they lead. -/
theorem ofItems?_lists {slots : List (Slot σ)} (hf : List.Forall₂ Slot.Parts slots fields) {x y : σ} {js : List Json}
    (h : Lists slots x js y) : Shape.ofItems? fields x js = some y := by
  induction h generalizing fields with
  | @short slots x hoptional =>
    have hgiven : ∀ s ∈ slots, s.required = true → s.name ∈ ([] : List String) :=
      fun s hs hrequired => nomatch hrequired.symm.trans (hoptional s hs)
    have hcomplete := incomplete_eq_false (fun h => ⟨h.name_eq, h.required_eq⟩) hf hgiven
    cases hf with
    | nil => rfl
    | cons _ _ => simp [Shape.ofItems?, hcomplete]
  | item hv _ ih =>
    cases hf with
    | cons hpart hmore =>
      rw [Shape.ofItems?, hpart.part hv]
      exact ih hmore

/-! ## Records -/

/-- A record is read from everything that stands for it. -/
theorem reads_record (hf : List.Forall₂ Slot.Reads l.slots fields) : (Shape.record l.start fields).Reads l.form := by
  intro j x hx ts hts rest
  cases j with
  | object ms =>
    cases hts with
    | leaf hl => nomatch hl
    | @object _ us hus =>
      have hlen := length_members hus
      simp only [Shape.record, List.cons_append, List.append_assoc, List.nil_append]
      refine membersWithin_fill hf (Describes.fill hx) hus ?_ rest
      simp
      omega
  | array js =>
    cases hts with
    | leaf hl => nomatch hl
    | @array _ us hus =>
      simp only [Shape.record, List.cons_append, List.append_assoc, List.nil_append]
      exact positions_lists hf hx hus rest
  | _ => exact hx.elim

/-- A record is taken from everything that stands for it. -/
theorem parts_record (hf : List.Forall₂ Slot.Parts l.slots fields) : (Shape.record l.start fields).Parts l.form := by
  intro j x hx
  cases j with
  | object ms => exact ofMembers?_fill hf (Describes.fill hx)
  | array js => exact ofItems?_lists hf hx
  | _ => exact hx.elim

end Layout

/-! ## Values of one of several kinds -/

/-- The variant is the one of the kind, and takes its records apart. -/
structure Kind.Fits {α : Type} (k : Kind α) (v : Variant α) : Prop where
  tag_eq : v.tag = k.tag
  part : ∀ {j x}, k.layout.form.means j x → v.ofJson? j = some (k.wrap x)

/-- The members of other names. -/
def others (name : String) (ms : List (List Char × Json)) : List (List Char × Json) :=
  ms.filter fun m => String.ofList m.1 ≠ name

/-- The members of other names have the values that they had. -/
theorem valuesOf_others {key name : String} (hne : key ≠ name) (ms : List (List Char × Json)) :
    valuesOf name (others key ms) = valuesOf name ms := by
  induction ms with
  | nil => rfl
  | cons m ms ih =>
    obtain ⟨n, j⟩ := m
    by_cases hkey : String.ofList n = key
    · have hn : String.ofList n ≠ name := fun h => hne (hkey.symm.trans h)
      have hdrop : others key ((n, j) :: ms) = others key ms := List.filter_cons_of_neg (by simpa using hkey)
      rw [hdrop, ih, valuesOf_cons_other hn]
    · have hkeep : others key ((n, j) :: ms) = (n, j) :: others key ms := List.filter_cons_of_pos (by simpa using hkey)
      rw [hkeep, valuesOf, valuesOf, ih]

/-- A record is described without the members of a name that it has no slot of. -/
theorem Layout.Describes.others {σ : Type} {l : Layout σ} {ms : List (List Char × Json)} {x : σ} {key : String}
    (h : l.Describes ms x) (hkey : ¬ l.Knows key) : l.Describes (others key ms) x :=
  h.congr (fun s hs => valuesOf_others (fun heq => hkey ⟨s, hs, heq.symm⟩) ms)
    fun m hm => h.typed.asides m (List.mem_of_mem_filter hm)

namespace Family

variable {α : Type} {f : Family α} {variants : List (Variant α)}

/-- The kind of a tag is found by its words. -/
theorem tagOf_phrase {k : Kind α} {v : Variant α} (hfind : variants.find? (fun v => v.tag = k.tag) = some v)
    {ts : List Token} (hts : Phrase (.value (.text k.tag.toList)) ts) (rest : List Token) :
    Shape.tagOf variants (ts ++ rest) = .ok (v, rest) := by
  have hread : Shape.text.read (ts ++ rest) = .ok (k.tag, rest) := Shape.reads_text rfl hts rest
  simp only [Shape.tagOf, hread, bind, Except.bind, hfind]

section Steps

variable {key : String} {r : Reading} {q : Quoted} {name : List Char} {ts us : List Token}

/-- The member that names the kind. -/
theorem taggedMembersWithin_tag {v : Variant α} (hq : q.chars = .ok name) (hkey : String.ofList name = key)
    (htag : Shape.tagOf variants ts = .ok (v, us)) (n : Nat) (first : Bool) (done : List (List Char × Json)) :
    Shape.taggedMembersWithin key variants r (n + 1) first none done (separator first ++ .text q :: .colon :: ts) =
      Shape.taggedMembersWithin key variants r n false (some v) done us := by
  rw [Shape.taggedMembersWithin, nextName_separator]
  simp only [bind, Except.bind, hq, hkey, if_true, Option.isSome_none, Bool.false_eq_true, if_false, Shape.afterColon, htag]

/-- A member beside the tag. -/
theorem taggedMembersWithin_other {j : Json} (hq : q.chars = .ok name) (hkey : String.ofList name ≠ key)
    (hvalue : readValue r ts = .ok (j, us)) (n : Nat) (first : Bool) (tag : Option (Variant α))
    (done : List (List Char × Json)) :
    Shape.taggedMembersWithin key variants r (n + 1) first tag done (separator first ++ .text q :: .colon :: ts) =
      Shape.taggedMembersWithin key variants r n false tag ((name, j) :: done) us := by
  cases tag <;>
    rw [Shape.taggedMembersWithin, nextName_separator] <;>
    simp only [bind, Except.bind, hq, hkey, if_false, Shape.afterColon, hvalue]

end Steps

/-- What is known of the tag and what is still to come of it are one tag together. -/
inductive TagAhead (key : String) (k : Kind α) (v : Variant α) : Option (Variant α) → List (List Char × Json) → Prop
  | before {ms : List (List Char × Json)} : valuesOf key ms = [.text k.tag.toList] → TagAhead key k v none ms
  | after {ms : List (List Char × Json)} : valuesOf key ms = [] → TagAhead key k v (some v) ms

/-- The members of an object that names its kind are read to their end, and what stands beside the tag is kept in its order.
By induction on the members. -/
theorem taggedMembersWithin_phrase {key : String} {k : Kind α} {v : Variant α} {levels : Nat}
    (hfind : variants.find? (fun v => v.tag = k.tag) = some v) {ms : List (List Char × Json)} {tag : Option (Variant α)}
    (htag : TagAhead key k v tag ms) (hdepth : ∀ m ∈ others key ms, depth m.2 ≤ levels) {first : Bool} {ts : List Token}
    (hts : Phrase (.members first ms) ts) {n : Nat} (hn : ms.length < n) (done : List (List Char × Json)) (rest : List Token) :
    Shape.taggedMembersWithin key variants (.whole levels) n first tag done (ts ++ .closeObject :: rest) =
      Shape.ofVariant v (.object (done.reverse ++ others key ms)) rest := by
  induction ms generalizing tag done first ts n with
  | nil =>
    cases hts
    obtain ⟨m, rfl⟩ := Nat.exists_eq_add_of_lt hn
    cases htag with
    | before h => nomatch h
    | after _ => simp [Shape.taggedMembersWithin, nextName_end, bind, Except.bind, others]
  | cons m ms ih =>
    obtain ⟨name, j⟩ := m
    obtain ⟨m, rfl⟩ := Nat.exists_eq_add_of_lt hn
    cases hts with
    | @member _ q _ _ _ us vs hq hus hvs =>
      simp only [List.append_assoc, List.cons_append]
      by_cases hkey : String.ofList name = key
      · have hdrop : others key ((name, j) :: ms) = others key ms := List.filter_cons_of_neg (by simpa using hkey)
        rw [hdrop] at hdepth ⊢
        cases htag with
        | after h =>
          rw [valuesOf_cons_same hkey] at h
          nomatch h
        | before h =>
          rw [valuesOf_cons_same hkey] at h
          obtain ⟨rfl, hnone⟩ := List.cons.inj h
          have hhere := tagOf_phrase hfind hus (vs ++ .closeObject :: rest)
          rw [taggedMembersWithin_tag hq hkey hhere]
          exact ih (.after hnone) hdepth hvs (by simp; omega) done
      · have hkeep : others key ((name, j) :: ms) = (name, j) :: others key ms :=
          List.filter_cons_of_pos (by simpa using hkey)
        rw [hkeep] at hdepth ⊢
        obtain ⟨hj, hrest⟩ := List.forall_mem_cons.1 hdepth
        have htag' : TagAhead key k v tag ms := by
          cases htag with
          | before h => exact .before (by rwa [valuesOf_cons_other hkey] at h)
          | after h => exact .after (by rwa [valuesOf_cons_other hkey] at h)
        have hvalue := readValue_phrase hus hj (vs ++ .closeObject :: rest)
        have hmore := ih htag' hrest hvs (n := ms.length + 1 + m) (by omega) ((name, j) :: done)
        simp only [List.reverse_cons, List.append_assoc, List.singleton_append] at hmore
        rw [taggedMembersWithin_other hq hkey hvalue]
        exact hmore

/-- The items of an array after its tag are read to their end. By induction on the items. -/
theorem taggedItemsWithin_phrase {v : Variant α} {levels : Nat} {js : List Json} (hdepth : ∀ j ∈ js, depth j ≤ levels)
    {ts : List Token} (hts : Phrase (.items false js) ts) {n : Nat} (hn : js.length < n) (done : List Json)
    (rest : List Token) :
    Shape.taggedItemsWithin v (.whole levels) n done (ts ++ .closeArray :: rest) =
      Shape.ofVariant v (.array (done.reverse ++ js)) rest := by
  induction js generalizing done ts n with
  | nil =>
    cases hts
    obtain ⟨m, rfl⟩ := Nat.exists_eq_add_of_lt hn
    simp [Shape.taggedItemsWithin, Shape.nextItem, bind, Except.bind]
  | cons j js ih =>
    obtain ⟨m, rfl⟩ := Nat.exists_eq_add_of_lt hn
    cases hts with
    | @item _ _ _ us vs hus hvs =>
      obtain ⟨hj, hrest⟩ := List.forall_mem_cons.1 hdepth
      have hvalue := readValue_phrase hus hj (vs ++ .closeArray :: rest)
      have hmore := ih hrest hvs (n := js.length + 1 + m) (by omega) (j :: done)
      simp only [List.reverse_cons, List.append_assoc, List.singleton_append] at hmore
      rw [List.append_assoc, Shape.taggedItemsWithin, Shape.nextItem_separator hus]
      simp only [bind, Except.bind, hvalue]
      exact hmore

/-- No member of an object of some kind is nested too deep. -/
theorem depth_lt_of_describes {k : Kind α} (hk : k ∈ f.kinds) {ms : List (List Char × Json)} {x : k.Content}
    (hx : k.layout.Describes ms x) {m : List Char × Json} (hm : m ∈ ms) : depth m.2 < 100 := by
  by_cases hknown : k.layout.Knows (String.ofList m.1)
  · obtain ⟨s, hs, hname⟩ := hknown
    have htyped := hx.typed.slots s hs
    have hvalue : m.2 ∈ valuesOf s.name ms := by
      rw [hname]
      exact mem_valuesOf hm
    revert htyped hvalue
    cases valuesOf s.name ms with
    | nil => exact fun _ h => (List.not_mem_nil h).elim
    | cons j rest =>
      cases rest with
      | nil =>
        rintro ⟨v, hv⟩ hj
        rw [List.mem_singleton.1 hj]
        exact f.shallow k hk s hs j v hv
      | cons _ _ => exact fun h => h.elim
  · exact hx.typed.asides m hm hknown

/-- No item of an array of some kind is nested too deep. -/
theorem depth_lt_of_lists {k : Kind α} (hk : k ∈ f.kinds) {slots : List (Slot k.Content)}
    (hslots : ∀ s ∈ slots, s ∈ k.layout.slots) {x y : k.Content} {js : List Json} (h : Lists slots x js y) {j : Json}
    (hj : j ∈ js) : depth j < 100 := by
  induction h with
  | short _ => exact (List.not_mem_nil hj).elim
  | item hv _ ih =>
    obtain ⟨hs, hrest⟩ := List.forall_mem_cons.1 hslots
    rcases List.mem_cons.1 hj with rfl | hj
    · exact f.shallow k hk _ hs _ _ hv
    · exact ih hrest hj

/-- A variant that fits a kind makes values of it. -/
theorem ofVariant_fits {k : Kind α} {v : Variant α} (hfits : k.Fits v) {j : Json} {x : k.Content}
    (hx : k.layout.form.means j x) (rest : List Token) : Shape.ofVariant v j rest = .ok (k.wrap x, rest) := by
  rw [Shape.ofVariant, hfits.part hx]

/-- A value of one of several kinds is read from everything that stands for it, unless it lies too deep inside of others. -/
theorem reads_tagged {nesting : Nat} (hnesting : nesting ≤ 28)
    (hfits : ∀ k ∈ f.kinds, ∃ v, variants.find? (fun v => v.tag = k.tag) = some v ∧ k.Fits v) :
    (Shape.tagged f.key variants nesting).Reads f.form := by
  have hroom : ∀ {n}, n < 100 → n ≤ Shape.maxDepth - nesting := by
    intro n hn
    simp only [Shape.maxDepth]
    omega
  intro j a ha ts hts rest
  match j, ha with
  | .object ms, ⟨k, hk, x, ha, hnames, hx⟩ =>
    obtain ⟨v, hfind, hfit⟩ := hfits k hk
    cases hts with
    | leaf hl => nomatch hl
    | @object _ us hus =>
      have hlen := length_members hus
      have hdepth : ∀ m ∈ others f.key ms, depth m.2 ≤ Shape.maxDepth - nesting :=
        fun m hm => hroom (depth_lt_of_describes hk hx (List.mem_of_mem_filter hm))
      have hfuel : ms.length < (us ++ .closeObject :: rest).length + 1 := by
        simp
        omega
      simp only [Shape.tagged, List.cons_append, List.append_assoc, List.nil_append]
      rw [taggedMembersWithin_phrase hfind (.before hnames) hdepth hus hfuel [] rest, ha]
      have hmeans : k.layout.form.means (.object (others f.key ms)) x := Layout.Describes.others hx (f.key_free k hk)
      exact ofVariant_fits hfit hmeans rest
  | .array (_ :: js), ⟨k, hk, x, ha, rfl, hx⟩ =>
    obtain ⟨v, hfind, hfit⟩ := hfits k hk
    cases hts with
    | leaf hl => nomatch hl
    | @array _ us hus =>
      cases hus with
      | @item _ _ _ us vs hus hvs =>
        have hlen := Shape.length_items hvs
        have hdepth : ∀ j ∈ js, depth j ≤ Shape.maxDepth - nesting :=
          fun j hj => hroom (depth_lt_of_lists hk (fun _ hs => hs) hx hj)
        have hfuel : js.length < (vs ++ .closeArray :: rest).length + 1 := by
          simp
          omega
        have hitem := Shape.nextItem_separator hus true (vs ++ .closeArray :: rest)
        have htag := tagOf_phrase hfind hus (vs ++ .closeArray :: rest)
        have hread := taggedItemsWithin_phrase (v := v) hdepth hvs hfuel [] rest
        simp only [Shape.tagged, List.cons_append, List.append_assoc, List.nil_append] at hitem ⊢
        simp only [bind, Except.bind, hitem, htag]
        rw [hread, ha]
        have hmeans : k.layout.form.means (.array js) x := hx
        exact ofVariant_fits hfit hmeans rest

end Family

end Peripheral.Json
