import Peripheral.Json.Value
import Peripheral.Proofs.Json.Grammar

/-!
# Reading values

The machine that reads values comes to the end of every value the grammar allows, exactly where the value ends: a reading of
values that are wanted arrives at the value that the words stand for, and passing over a value takes all of its words and no
more. A value that is wanted must not be nested deeper than there is room for.
-/

namespace Peripheral.Json

/-- What is left to do after a value is complete. -/
def resume (r : Reading) : Advance → List Token → Except Fault (Json × List Token)
  | .done v, rest => .ok (v, rest)
  | .more p, rest => readFrom r p rest

/-- What a reading does with words that are in order. An exact one finds the values that the words stand for; others find
anything. -/
structure Reading.Takes (r : Reading) (exact : Prop) (levels : Nat) : Prop where
  leaf : ∀ {t j}, Leaf t j → ∃ j', r.leaf t = .ok j' ∧ (exact → j' = j)
  name : ∀ {q n}, q.chars = .ok n → ∃ n', r.name q = .ok n' ∧ (exact → n' = n)
  room : ∀ n, n < levels → r.room n = true

/-! ## Readings -/

/-- A quoted text that has a fault has no characters. -/
theorem Quoted.charsOf_fault (f : Fault) : ∀ (ps : List Piece) (s : List Char), Quoted.charsOf (some f) ps ≠ .ok s
  | [], _ => fun h => nomatch h
  | .char c :: rest, s => by
    rw [Quoted.charsOf]
    cases hrest : Quoted.charsOf (some f) rest with
    | error => exact fun h => nomatch h
    | ok cs => exact absurd hrest (Quoted.charsOf_fault f rest cs)
  | .half h :: .half l :: rest, s => by
    rw [Quoted.charsOf]
    split
    · cases hrest : Quoted.charsOf (some f) rest with
      | error => exact fun h => nomatch h
      | ok cs => exact absurd hrest (Quoted.charsOf_fault f rest cs)
    · exact fun h => nomatch h
  | .half _ :: .char _ :: _, _ => fun h => nomatch h
  | [.half _], _ => fun h => nomatch h

/-- A text that stands for characters ends in order. -/
theorem Quoted.fault_eq_none {q : Quoted} {s : List Char} (h : q.chars = .ok s) : q.fault = none := by
  obtain ⟨ps, fault⟩ := q
  cases fault with
  | none => rfl
  | some f => exact absurd h (Quoted.charsOf_fault f ps s)

/-- What is wanted is found as it stands. -/
theorem takes_whole (levels : Nat) : (Reading.whole levels).Takes True levels where
  leaf := by
    intro t j h
    refine ⟨j, ?_, fun _ => rfl⟩
    cases h with
    | null => rfl
    | bool b => rfl
    | number hv => simp only [Reading.whole, hv]
    | text hs =>
      simp only [Reading.whole, hs]
      rfl
  name := fun h => ⟨_, h, fun _ => rfl⟩
  room := fun n hn => decide_eq_true hn

/-- What is passed over may be nested as deep as it likes. -/
theorem takes_passing (levels : Nat) : Reading.passing.Takes False levels where
  leaf := by
    intro t j h
    refine ⟨.null, ?_, False.elim⟩
    cases h with
    | null => rfl
    | bool b => rfl
    | number hv => rfl
    | text hs => simp only [Reading.passing, Quoted.fault_eq_none hs]
  name := by
    intro q n h
    exact ⟨[], by simp only [Reading.passing, Quoted.fault_eq_none h], False.elim⟩
  room := fun n hn => rfl

/-! ## The run of the machine over the words of a value -/

/-- What may come where an item or the end of an array stands. -/
def atItem (first : Bool) : Expecting := if first then .itemOrEnd else .separator

/-- What may come where a member or the end of an object stands. -/
def atMember (first : Bool) : Expecting := if first then .nameOrEnd else .separator

/-- What a reading makes of the words of a part: it comes to their end, with what they stand for. -/
def Reading.Finishes (r : Reading) (exact : Prop) (levels : Nat) : Part → List Token → Prop
  | .value j, ts => ∀ stack rest, stack.length + depth j ≤ levels →
      ∃ j', (exact → j' = j) ∧ readFrom r ⟨.value, stack⟩ (ts ++ rest) = resume r (complete j' stack) rest
  | .items first js, ts => ∀ done stack rest, stack.length + 1 + depthOfItems js ≤ levels →
      ∃ js', (exact → js' = js) ∧ readFrom r ⟨atItem first, .items done :: stack⟩ (ts ++ .closeArray :: rest) =
        resume r (complete (.array (done.reverse ++ js')) stack) rest
  | .members first ms, ts => ∀ done n stack rest, stack.length + 1 + depthOfMembers ms ≤ levels →
      ∃ ms', (exact → ms' = ms) ∧ readFrom r ⟨atMember first, .members done n :: stack⟩ (ts ++ .closeObject :: rest) =
        resume r (complete (.object (done.reverse ++ ms')) stack) rest

/-- A word that a value may begin with. -/
def Token.opens : Token → Bool
  | .closeArray => false
  | .closeObject => false
  | .comma => false
  | .colon => false
  | _ => true

/-- The words of a value are not none, and the first one is no end of anything. -/
theorem Phrase.opens {j : Json} {ts : List Token} (h : Phrase (.value j) ts) :
    ∃ t us, ts = t :: us ∧ t.opens = true := by
  cases h with
  | leaf hl => exact ⟨_, _, rfl, by cases hl <;> rfl⟩
  | array _ => exact ⟨_, _, rfl, rfl⟩
  | object _ => exact ⟨_, _, rfl, rfl⟩

variable {r : Reading} {exact : Prop} {levels : Nat}

/-- To read words is to take the first one and to go on from there. -/
theorem readFrom_cons {p : Progress} {t : Token} {a : Advance} (h : advance r p t = .ok a) (rest : List Token) :
    readFrom r p (t :: rest) = resume r a rest := by
  rw [readFrom, h]
  cases a <;> rfl

/-- Where an item is expected, a value is read as where a value is expected. -/
theorem readFrom_item {ts : List Token} {j : Json} (h : Phrase (.value j) ts) (first : Bool) (done : List Json)
    (stack : List Partial) (rest : List Token) :
    readFrom r ⟨atItem first, .items done :: stack⟩ (separator first ++ ts ++ rest) =
      readFrom r ⟨.value, .items done :: stack⟩ (ts ++ rest) := by
  cases first with
  | true =>
    obtain ⟨t, us, rfl, ht⟩ := h.opens
    have hadvance : advance r ⟨.itemOrEnd, .items done :: stack⟩ t = advance r ⟨.value, .items done :: stack⟩ t := by
      cases t with
      | closeArray => nomatch ht
      | _ => rfl
    simp only [atItem, separator, if_true, List.nil_append, List.cons_append, readFrom, hadvance]
  | false => rfl

/-- Where a member is expected, its name and colon are taken. -/
theorem readFrom_member {q : Quoted} {n n' : List Char} (h : r.name q = .ok n') (first : Bool)
    (done : List (List Char × Json)) (stack : List Partial) (rest : List Token) :
    readFrom r ⟨atMember first, .members done n :: stack⟩ (separator first ++ .text q :: .colon :: rest) =
      readFrom r ⟨.value, .members done n' :: stack⟩ rest := by
  have hname : ∀ done stack, named r (.text q) done stack = .ok (.more ⟨.colon, .members done n' :: stack⟩) := by
    intro done stack
    rw [named, h]
    rfl
  cases first with
  | true =>
    have hadvance : advance r ⟨.nameOrEnd, .members done n :: stack⟩ (.text q) =
        .ok (.more ⟨.colon, .members done n' :: stack⟩) := hname done stack
    exact readFrom_cons hadvance _
  | false =>
    have hadvance : advance r ⟨.name, .members done n :: stack⟩ (.text q) =
        .ok (.more ⟨.colon, .members done n' :: stack⟩) := hname done stack
    exact readFrom_cons hadvance _

/-- A reading comes to the end of the words of every part that is not nested too deep. By induction on the phrase. -/
theorem Reading.Takes.finishes (hr : r.Takes exact levels) {part : Part} {ts : List Token} (h : Phrase part ts) :
    r.Finishes exact levels part ts := by
  induction h with
  | @leaf t j hl =>
    intro stack rest _
    obtain ⟨j', hj, hexact⟩ := hr.leaf hl
    have hbegin : advance r ⟨.value, stack⟩ t = (r.leaf t).map (complete · stack) := by cases hl <;> rfl
    exact ⟨j', hexact, readFrom_cons (by rw [hbegin, hj]; rfl) rest⟩
  | @array js ts _ ih =>
    intro stack rest hdepth
    simp only [depth] at hdepth
    obtain ⟨js', hexact, hread⟩ := ih [] stack rest (by omega)
    refine ⟨.array js', fun he => congrArg _ (hexact he), ?_⟩
    have hroom : advance r ⟨.value, stack⟩ .openArray = .ok (.more ⟨.itemOrEnd, .items [] :: stack⟩) :=
      if_pos (hr.room stack.length (by omega))
    simp only [List.cons_append, List.append_assoc, List.nil_append]
    exact (readFrom_cons hroom _).trans hread
  | @object ms ts _ ih =>
    intro stack rest hdepth
    simp only [depth] at hdepth
    obtain ⟨ms', hexact, hread⟩ := ih [] [] stack rest (by omega)
    refine ⟨.object ms', fun he => congrArg _ (hexact he), ?_⟩
    have hroom : advance r ⟨.value, stack⟩ .openObject = .ok (.more ⟨.nameOrEnd, .members [] [] :: stack⟩) :=
      if_pos (hr.room stack.length (by omega))
    simp only [List.cons_append, List.append_assoc, List.nil_append]
    exact (readFrom_cons hroom _).trans hread
  | noItems first =>
    intro done stack rest _
    refine ⟨[], fun _ => rfl, ?_⟩
    rw [List.append_nil]
    cases first <;> exact readFrom_cons rfl rest
  | @item first j js ts us hj _ ihj ihjs =>
    intro done stack rest hdepth
    simp only [depthOfItems] at hdepth
    obtain ⟨j', hexact, hread⟩ := ihj (.items done :: stack) (us ++ .closeArray :: rest) (by simp; omega)
    obtain ⟨js', hmore, hrest⟩ := ihjs (j' :: done) stack rest (by omega)
    refine ⟨j' :: js', fun he => by rw [hexact he, hmore he], ?_⟩
    rw [List.append_assoc, readFrom_item hj, hread]
    simp only [List.reverse_cons, List.append_assoc, List.singleton_append] at hrest
    exact hrest
  | noMembers first =>
    intro done n stack rest _
    refine ⟨[], fun _ => rfl, ?_⟩
    rw [List.append_nil]
    cases first <;> exact readFrom_cons rfl rest
  | @member first q n j ms ts us hname hj _ ihj ihms =>
    intro done last stack rest hdepth
    simp only [depthOfMembers] at hdepth
    obtain ⟨n', hn', hexactn⟩ := hr.name hname
    obtain ⟨j', hexact, hread⟩ := ihj (.members done n' :: stack) (us ++ .closeObject :: rest) (by simp; omega)
    obtain ⟨ms', hmore, hrest⟩ := ihms ((n', j') :: done) n' stack rest (by omega)
    refine ⟨(n', j') :: ms', fun he => by rw [hexactn he, hexact he, hmore he], ?_⟩
    simp only [List.append_assoc, List.cons_append]
    rw [readFrom_member hn', hread]
    simp only [List.reverse_cons, List.append_assoc, List.singleton_append] at hrest
    exact hrest

/-- A value that is wanted is read as it stands. -/
theorem readValue_phrase {j : Json} {ts : List Token} (h : Phrase (.value j) ts) (hdepth : depth j ≤ levels)
    (rest : List Token) : readValue (.whole levels) (ts ++ rest) = .ok (j, rest) := by
  obtain ⟨j', hexact, hread⟩ := (takes_whole levels).finishes h [] rest (by simpa using hdepth)
  rw [readValue, hread, hexact trivial]
  rfl

/-- A value that is not wanted is passed over, with all of its words. -/
theorem skipValue_phrase {j : Json} {ts : List Token} (h : Phrase (.value j) ts) (rest : List Token) :
    skipValue (ts ++ rest) = .ok rest := by
  obtain ⟨j', -, hread⟩ := (takes_passing (depth j)).finishes h [] rest (by simp)
  rw [skipValue, readValue, hread]
  rfl

end Peripheral.Json
