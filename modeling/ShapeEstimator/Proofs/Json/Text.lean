/-
  ShapeEstimator.Proofs.Json.Text
  ────────────────────────────────
  **VALUES THAT ARE WRITTEN ARE READ BACK.**

  Two writers lay a value out, one without white space and one over lines.  The reader
  does not see the difference: what either writes is read as the value itself,

      read? (write j)  =  j       read? (pretty j)  =  j

  as long as nothing in the value is broken and it has no more levels of lists and
  objects than can be taken.
-/
import ShapeEstimator.Proofs.Json.Number

namespace ShapeEstimator.Json

/-! ## §1. Values that can be written. -/

mutual

/-- A value with at most the given number of levels of lists and objects, in which nothing is
broken, and whose integers have no power of ten. -/
def Fits : Nat → Json → Prop
  | _, .null | _, .bool _ | _, .string _ => True
  | _, .number n => n.whole = true → n.exponent = 0
  | _, .broken => False
  | 0, .array _ => False
  | 0, .object _ => False
  | levels + 1, .array items => AllFit levels items
  | levels + 1, .object members => MembersFit levels members

/-- Every value of a list fits. -/
def AllFit : Nat → List Json → Prop
  | _, [] => True
  | levels, j :: rest => j.Fits levels ∧ AllFit levels rest

/-- The value of every member fits. -/
def MembersFit : Nat → List (String × Json) → Prop
  | _, [] => True
  | levels, (_, j) :: rest => j.Fits levels ∧ MembersFit levels rest

end

mutual

/-- Nothing is cut from a value that fits. -/
theorem cutBelow_of_fits : ∀ (levels : Nat) (j : Json), j.Fits levels → j.cutBelow levels = j
  | levels, .null, _ => by cases levels <;> rfl
  | levels, .bool _, _ => by cases levels <;> rfl
  | levels, .number _, _ => by cases levels <;> rfl
  | levels, .string _, _ => by cases levels <;> rfl
  | levels, .broken, _ => by cases levels <;> rfl
  | 0, .array _, h => h.elim
  | 0, .object _, h => h.elim
  | levels + 1, .array items, h => congrArg Json.array (itemsCutBelow_of_fit levels items h)
  | levels + 1, .object members, h => congrArg Json.object (membersCutBelow_of_fit levels members h)

theorem itemsCutBelow_of_fit :
    ∀ (levels : Nat) (items : List Json), AllFit levels items → itemsCutBelow levels items = items
  | _, [], _ => rfl
  | levels, j :: rest, h => by
    rw [itemsCutBelow, cutBelow_of_fits levels j h.1, itemsCutBelow_of_fit levels rest h.2]

theorem membersCutBelow_of_fit :
    ∀ (levels : Nat) (members : List (String × Json)), MembersFit levels members →
      membersCutBelow levels members = members
  | _, [], _ => rfl
  | levels, (name, j) :: rest, h => by
    rw [membersCutBelow, cutBelow_of_fits levels j h.1, membersCutBelow_of_fit levels rest h.2]

end

/-! ## §2. White space. -/

/-- A text of white space. -/
def Blank (ws : List Char) : Prop := ∀ c ∈ ws, isSpace c = true

theorem blank_nil : Blank [] := nofun

theorem blank_newLine (level : Nat) : Blank (newLine level) := by
  intro c hc
  rcases List.mem_cons.1 hc with rfl | hc
  · decide
  · rw [List.eq_of_mem_replicate hc]
    decide

theorem blank_space : Blank [' '] := by
  intro c hc
  rw [List.mem_singleton.1 hc]
  decide

theorem skipSpace_append {ws cs : List Char} {c : Char} (hws : Blank ws)
    (hc : isSpace c = false) : skipSpace (ws ++ c :: cs) = c :: cs := by
  unfold skipSpace
  rw [List.dropWhile_append_of_pos hws, List.dropWhile_cons_of_neg (by rw [hc]; nofun)]

/-- A value is over before white space and what separates. -/
theorem stops_blank {ws cs : List Char} {c : Char} (hws : Blank ws)
    (hc : c = ',' ∨ c = ']' ∨ c = '\x7d') : Stops (ws ++ c :: cs) := by
  intro d hd
  cases ws with
  | nil =>
    cases hd
    rcases hc with rfl | rfl | rfl <;> decide
  | cons w ws =>
    cases hd
    have hspace := hws d List.mem_cons_self
    unfold isSpace at hspace
    simp only [Bool.or_eq_true, beq_iff_eq] at hspace
    rcases hspace with ((rfl | rfl) | rfl) | rfl <;> decide

/-! ## §3. Texts. -/

theorem hexValue4?_control : ∀ n < 0x20, hexValue4? '0' '0' (hexDigit (n / 16)) (hexDigit n)
    = some n := by decide

/-- A character that is written is read as its code point. -/
theorem readUnits_writeChar (c : Char) (cs : List Char) :
    readUnits (writeChar c ++ cs) = (readUnits cs).map fun r => (c.toNat :: r.1, r.2) := by
  have hbind : ∀ n, ((readUnits cs).bind fun r => some (n :: r.1, r.2))
      = (readUnits cs).map fun r => (n :: r.1, r.2) := by
    intro n
    cases readUnits cs <;> rfl
  unfold writeChar
  by_cases hquote : c = '"'
  · subst hquote
    rw [if_pos rfl]
    exact hbind 0x22
  · rw [if_neg hquote]
    by_cases hslash : c = '\\'
    · subst hslash
      rw [if_pos rfl]
      exact hbind 0x5C
    · rw [if_neg hslash]
      by_cases hcontrol : c.toNat < 0x20
      · rw [if_pos hcontrol]
        show readUnits ('\\' :: 'u' :: '0' :: '0' :: hexDigit (c.toNat / 16) :: hexDigit c.toNat
          :: cs) = _
        rw [readUnits.eq_def]
        dsimp only
        rw [if_neg (by decide), if_pos rfl]
        show ((hexValue4? '0' '0' (hexDigit (c.toNat / 16)) (hexDigit c.toNat)).bind fun n =>
          (readUnits cs).bind fun r => some (n :: r.1, r.2)) = _
        rw [hexValue4?_control _ hcontrol]
        exact hbind c.toNat
      · rw [if_neg hcontrol]
        show readUnits (c :: cs) = _
        rw [readUnits.eq_def]
        dsimp only
        rw [if_neg hquote, if_neg hslash, if_neg hcontrol]
        exact hbind c.toNat

theorem readUnits_write (text rest : List Char) :
    readUnits (text.flatMap writeChar ++ '"' :: rest) = some (text.map Char.toNat, rest) := by
  induction text with
  | nil =>
    show readUnits ('"' :: rest) = _
    rw [readUnits.eq_def]
    rfl
  | cons c cs ih =>
    rw [List.flatMap_cons, List.append_assoc, readUnits_writeChar, ih]
    rfl

/-- No character is half of one. -/
theorem joinHalves_toNat (text : List Char) : joinHalves (text.map Char.toNat) = some text := by
  induction text with
  | nil => rw [List.map_nil, joinHalves]
  | cons c cs ih =>
    have hvalid : c.toNat < 0xD800 ∨ (0xDFFF < c.toNat ∧ c.toNat < 0x110000) := c.valid
    have hhigh : isHighHalf c.toNat = false := by
      unfold isHighHalf
      simp only [Bool.and_eq_false_iff, decide_eq_false_iff_not]
      omega
    have hlow : isLowHalf c.toNat = false := by
      unfold isLowHalf
      simp only [Bool.and_eq_false_iff, decide_eq_false_iff_not]
      omega
    rw [List.map_cons, joinHalves.eq_def]
    dsimp only
    rw [hhigh, hlow, ih, if_neg Bool.false_ne_true, if_neg Bool.false_ne_true, Char.ofNat_toNat]
    rfl

theorem readText_write (s : String) (rest : List Char) :
    readText (s.toList.flatMap writeChar ++ '"' :: rest) = some (some s, rest) := by
  unfold readText
  rw [readUnits_write]
  show some (Option.map String.ofList (joinHalves (s.toList.map Char.toNat)), rest) = _
  rw [joinHalves_toNat]
  show some (some (String.ofList s.toList), rest) = _
  rw [String.ofList_toList]

/-! ## §4. What is read as a value. -/

/-- A text is read as a value, whatever follows that does not go on with it. -/
structure Reads (cs : List Char) (j : Json) : Prop where
  /-- The text starts with a character of the value. -/
  starts : ∃ c ds, cs = c :: ds ∧ isSpace c = false ∧ c ≠ ']'
  /-- The value is read with as much fuel as there are characters. -/
  reads : ∀ fuel rest, cs.length ≤ fuel → Stops rest → readValue fuel (cs ++ rest) = some (j, rest)

/-- A text is read as the items of a list, up to the closing bracket. -/
structure ReadsItems (ds : List Char) (items : List Json) : Prop where
  /-- The text does not start with the closing bracket. -/
  starts : ∀ rest, ∃ c cs, skipSpace (ds ++ rest) = c :: cs ∧ c ≠ ']'
  /-- The items are read. -/
  reads : ∀ fuel rest, ds.length < fuel → readItems fuel (ds ++ ']' :: rest) = some (items, rest)

/-- A text is read as the members of an object, up to the closing brace. -/
structure ReadsMembers (ds : List Char) (members : List (String × Json)) : Prop where
  /-- The text starts with a name. -/
  starts : ∀ rest, ∃ cs, skipSpace (ds ++ rest) = '"' :: cs
  /-- The members are read. -/
  reads : ∀ fuel rest, ds.length < fuel →
    readMembers fuel (ds ++ '\x7d' :: rest) = some (.object members, rest)

section Steps

variable {fuel : Nat} {ws ws' cs ds r r' rest : List Char} {j : Json} {items : List Json}
variable {name : String} {members : List (String × Json)}

/-- White space in front of a value does not matter. -/
theorem readValue_blank {c : Char} (hws : Blank ws) (hc : isSpace c = false) :
    readValue fuel (ws ++ c :: cs) = readValue fuel (c :: cs) := by
  have hskip : skipSpace (ws ++ c :: cs) = skipSpace (c :: cs) := by
    rw [skipSpace_append hws hc]
    exact (skipSpace_append blank_nil hc).symm
  cases fuel with
  | zero => rfl
  | succ f => rw [readValue, readValue, hskip]

theorem Reads.readValue_eq (h : Reads cs j) (hws : Blank ws) (hfuel : cs.length ≤ fuel)
    (hrest : Stops rest) : readValue fuel (ws ++ (cs ++ rest)) = some (j, rest) := by
  obtain ⟨c, ds, hcs, hc, _⟩ := h.starts
  have hread := h.reads fuel rest hfuel hrest
  rw [hcs] at hread ⊢
  rw [List.cons_append] at hread ⊢
  rw [readValue_blank hws hc]
  exact hread

theorem Reads.skipSpace_eq (h : Reads cs j) (hws : Blank ws) (rest : List Char) :
    ∃ c ds, skipSpace (ws ++ (cs ++ rest)) = c :: ds ∧ c ≠ ']' := by
  obtain ⟨c, ds, hcs, hc, hbracket⟩ := h.starts
  refine ⟨c, ds ++ rest, ?_, hbracket⟩
  rw [hcs, List.cons_append, skipSpace_append hws hc]

theorem Reads.length_pos (h : Reads cs j) : 0 < cs.length := by
  obtain ⟨c, ds, rfl, _⟩ := h.starts
  exact Nat.succ_pos _

/-! ## §5. Words, numbers and texts. -/

theorem reads_null : Reads "null".toList .null where
  starts := ⟨'n', ['u', 'l', 'l'], rfl, by decide, by decide⟩
  reads := by
    rintro (_ | f) rest hfuel _
    · exact absurd hfuel (by decide)
    · rfl

theorem reads_bool (b : Bool) : Reads (if b then "true" else "false").toList (.bool b) := by
  cases b with
  | true =>
    refine ⟨⟨'t', ['r', 'u', 'e'], rfl, by decide, by decide⟩, ?_⟩
    rintro (_ | f) rest hfuel _
    · exact absurd hfuel (by decide)
    · rfl
  | false =>
    refine ⟨⟨'f', ['a', 'l', 's', 'e'], rfl, by decide, by decide⟩, ?_⟩
    rintro (_ | f) rest hfuel _
    · exact absurd hfuel (by decide)
    · rfl

/-- What starts with a sign or a digit is read as a number. -/
theorem readValue_number {c : Char} (hc : c = '-' ∨ c.isDigit = true) (f : Nat) (cs : List Char) :
    readValue (f + 1) (c :: cs) = (readNumber (c :: cs)).map fun r => (.number r.1, r.2) := by
  have hother : ∀ d : Char, d ≠ '-' → d.isDigit = false → c ≠ d := by
    rintro d hsign hdigit rfl
    rcases hc with hc | hc
    · exact hsign hc
    · rw [hdigit] at hc
      exact nomatch hc
  have hspace : isSpace c = false := by
    unfold isSpace
    rw [beq_false_of_ne (hother ' ' (by decide) (by decide)),
      beq_false_of_ne (hother '\t' (by decide) (by decide)),
      beq_false_of_ne (hother '\n' (by decide) (by decide)),
      beq_false_of_ne (hother '\r' (by decide) (by decide))]
    rfl
  rw [readValue, show skipSpace (c :: cs) = c :: cs from skipSpace_append blank_nil hspace]
  dsimp only
  rw [if_neg (hother _ (by decide) (by decide)), if_neg (hother _ (by decide) (by decide)),
    if_neg (hother _ (by decide) (by decide)), if_neg (hother _ (by decide) (by decide)),
    if_neg (hother _ (by decide) (by decide)), if_neg (hother _ (by decide) (by decide))]

theorem head_writeNumber (n : JsonNumber) :
    ∃ c cs, writeNumber n = c :: cs ∧ (c = '-' ∨ c.isDigit = true) := by
  obtain ⟨c, cs, hcs, hc⟩ := head_unsignedText n
  show ∃ d ds, Text.signed n.negative (unsignedText n) = d :: ds ∧ _
  cases n.negative with
  | true => exact ⟨'-', _, rfl, Or.inl rfl⟩
  | false => exact ⟨c, cs, hcs, Or.inr hc⟩

theorem reads_number {n : JsonNumber} (hn : n.whole = true → n.exponent = 0) :
    Reads (writeNumber n) (.number n) := by
  obtain ⟨c, cs, hcs, hc⟩ := head_writeNumber n
  constructor
  · refine ⟨c, cs, hcs, ?_, ?_⟩
    · rcases hc with rfl | hc
      · decide
      · cases hspace : isSpace c with
        | false => rfl
        | true =>
          unfold isSpace at hspace
          simp only [Bool.or_eq_true, beq_iff_eq] at hspace
          rcases hspace with ((rfl | rfl) | rfl) | rfl <;> exact absurd hc (by decide)
    · rintro rfl
      rcases hc with hc | hc <;> exact absurd hc (by decide)
  · rintro (_ | f) rest hfuel hrest
    · rw [hcs] at hfuel
      exact absurd hfuel (by simp)
    · have hread := readNumber_writeNumber hn hrest
      rw [hcs] at hread ⊢
      rw [List.cons_append] at hread ⊢
      rw [readValue_number hc, hread]
      rfl

theorem writeText_append (s : String) (rest : List Char) :
    writeText s ++ rest = '"' :: (s.toList.flatMap writeChar ++ '"' :: rest) := by
  unfold writeText
  rw [List.cons_append, List.append_assoc]
  rfl

theorem reads_string (s : String) : Reads (writeText s) (.string s) := by
  refine ⟨⟨'"', _, rfl, by decide, by decide⟩, ?_⟩
  rintro (_ | f) rest hfuel _
  · exact absurd hfuel (by simp [writeText])
  · rw [writeText_append, readValue, show skipSpace ('"' :: _) = '"' :: _ from
      skipSpace_append blank_nil (by decide)]
    dsimp only
    rw [if_pos rfl, readText_write]
    rfl

/-! ## §6. Lists. -/

theorem readItems_last (hvalue : readValue fuel cs = some (j, r))
    (hclose : skipSpace r = ']' :: rest) : readItems (fuel + 1) cs = some ([j], rest) := by
  simp only [readItems, hvalue, hclose, Option.bind_eq_bind, Option.bind_some]
  rfl

theorem readItems_next (hvalue : readValue fuel cs = some (j, r))
    (hcomma : skipSpace r = ',' :: r') (hitems : readItems fuel r' = some (items, rest)) :
    readItems (fuel + 1) cs = some (j :: items, rest) := by
  simp only [readItems, hvalue, hcomma, hitems, Option.bind_eq_bind, Option.bind_some]
  rfl

theorem Reads.lastItem (h : Reads cs j) (hws : Blank ws) (hws' : Blank ws') :
    ReadsItems (ws ++ (cs ++ ws')) [j] := by
  constructor
  · intro rest
    rw [List.append_assoc, List.append_assoc]
    exact h.skipSpace_eq hws (ws' ++ rest)
  · rintro (_ | f) rest hfuel
    · exact absurd hfuel (Nat.not_lt_zero _)
    · rw [List.length_append, List.length_append] at hfuel
      rw [List.append_assoc, List.append_assoc]
      exact readItems_last (h.readValue_eq hws (by omega) (stops_blank hws' (by simp)))
        (skipSpace_append hws' (by decide))

theorem Reads.nextItem (h : Reads cs j) (hws : Blank ws) (hds : ReadsItems ds items) :
    ReadsItems (ws ++ (cs ++ ',' :: ds)) (j :: items) := by
  constructor
  · intro rest
    rw [List.append_assoc, List.append_assoc]
    exact h.skipSpace_eq hws (',' :: ds ++ rest)
  · rintro (_ | f) rest hfuel
    · exact absurd hfuel (Nat.not_lt_zero _)
    · rw [List.length_append, List.length_append, List.length_cons] at hfuel
      rw [List.append_assoc, List.append_assoc]
      have hstops : Stops ([] ++ ',' :: (ds ++ ']' :: rest)) := stops_blank blank_nil (by simp)
      exact readItems_next (h.readValue_eq hws (by omega) hstops)
        (skipSpace_append blank_nil (by decide)) (hds.reads f rest (by omega))

theorem reads_emptyArray : Reads ['[', ']'] (.array []) where
  starts := ⟨'[', [']'], rfl, by decide, by decide⟩
  reads := by
    rintro (_ | f) rest hfuel _
    · exact absurd hfuel (by decide)
    · rfl

theorem ReadsItems.array (h : ReadsItems ds items) :
    Reads ('[' :: (ds ++ [']'])) (.array items) := by
  refine ⟨⟨'[', _, rfl, by decide, by decide⟩, ?_⟩
  rintro (_ | f) rest hfuel _
  · exact absurd hfuel (by simp)
  · obtain ⟨c, cs, hskip, hc⟩ := h.starts (']' :: rest)
    rw [List.length_cons, List.length_append, List.length_singleton] at hfuel
    rw [List.cons_append, List.append_assoc, readValue,
      show skipSpace ('[' :: _) = '[' :: _ from skipSpace_append blank_nil (by decide)]
    dsimp only
    rw [if_neg (by decide), if_pos rfl]
    rw [List.singleton_append, hskip]
    -- the list is not empty, so its items are read
    split
    · rename_i heq
      cases heq
      exact absurd rfl hc
    · rw [h.reads f rest (by omega)]
      rfl

/-! ## §7. Objects. -/

theorem readMembers_last (hname : skipSpace cs = '"' :: (name.toList.flatMap writeChar ++ '"' :: r))
    (hcolon : skipSpace r = ':' :: r') {r'' : List Char}
    (hvalue : readValue fuel r' = some (j, r'')) (hclose : skipSpace r'' = '\x7d' :: rest) :
    readMembers (fuel + 1) cs = some (.object [(name, j)], rest) := by
  simp only [readMembers, hname, readText_write, hcolon, hvalue, hclose, Option.bind_eq_bind,
    Option.bind_some]
  rfl

theorem readMembers_next (hname : skipSpace cs = '"' :: (name.toList.flatMap writeChar ++ '"' :: r))
    (hcolon : skipSpace r = ':' :: r') {r'' r₃ : List Char}
    (hvalue : readValue fuel r' = some (j, r'')) (hcomma : skipSpace r'' = ',' :: r₃)
    (hmembers : readMembers fuel r₃ = some (.object members, rest)) :
    readMembers (fuel + 1) cs = some (.object ((name, j) :: members), rest) := by
  simp only [readMembers, hname, readText_write, hcolon, hvalue, hcomma, hmembers,
    Option.bind_eq_bind, Option.bind_some]
  rfl

/-- The name of a member with its colon, between white space. -/
theorem skipSpace_name (hws : Blank ws) (name : String) (rest : List Char) :
    skipSpace (ws ++ (writeText name ++ rest))
      = '"' :: (name.toList.flatMap writeChar ++ '"' :: rest) := by
  rw [writeText_append, skipSpace_append hws (by decide)]

theorem Reads.lastMember {w₁ w₂ w₃ : List Char} (h : Reads cs j) (h₁ : Blank w₁) (h₂ : Blank w₂)
    (h₃ : Blank w₃) (name : String) :
    ReadsMembers (w₁ ++ (writeText name ++ ':' :: (w₂ ++ (cs ++ w₃)))) [(name, j)] := by
  constructor
  · intro rest
    rw [List.append_assoc, List.append_assoc]
    exact ⟨_, skipSpace_name h₁ name _⟩
  · rintro (_ | f) rest hfuel
    · exact absurd hfuel (Nat.not_lt_zero _)
    · simp only [List.length_append, List.length_cons] at hfuel
      simp only [List.append_assoc, List.cons_append]
      exact readMembers_last (skipSpace_name h₁ name _) (skipSpace_append blank_nil (by decide))
        (h.readValue_eq h₂ (by omega) (stops_blank h₃ (by simp)))
        (skipSpace_append h₃ (by decide))

theorem Reads.nextMember {w₁ w₂ : List Char} (h : Reads cs j) (h₁ : Blank w₁) (h₂ : Blank w₂)
    (name : String) (hds : ReadsMembers ds members) :
    ReadsMembers (w₁ ++ (writeText name ++ ':' :: (w₂ ++ (cs ++ ',' :: ds)))) ((name, j) :: members)
    := by
  constructor
  · intro rest
    rw [List.append_assoc, List.append_assoc]
    exact ⟨_, skipSpace_name h₁ name _⟩
  · rintro (_ | f) rest hfuel
    · exact absurd hfuel (Nat.not_lt_zero _)
    · simp only [List.length_append, List.length_cons] at hfuel
      simp only [List.append_assoc, List.cons_append]
      have hstops : Stops ([] ++ ',' :: (ds ++ '\x7d' :: rest)) := stops_blank blank_nil (by simp)
      exact readMembers_next (skipSpace_name h₁ name _) (skipSpace_append blank_nil (by decide))
        (h.readValue_eq h₂ (by omega) hstops) (skipSpace_append blank_nil (by decide))
        (hds.reads f rest (by omega))

theorem reads_emptyObject : Reads ['\x7b', '\x7d'] (.object []) where
  starts := ⟨'\x7b', ['\x7d'], rfl, by decide, by decide⟩
  reads := by
    rintro (_ | f) rest hfuel _
    · exact absurd hfuel (by decide)
    · rfl

theorem ReadsMembers.object (h : ReadsMembers ds members) :
    Reads ('\x7b' :: (ds ++ ['\x7d'])) (.object members) := by
  refine ⟨⟨'\x7b', _, rfl, by decide, by decide⟩, ?_⟩
  rintro (_ | f) rest hfuel _
  · exact absurd hfuel (by simp)
  · obtain ⟨cs, hskip⟩ := h.starts ('\x7d' :: rest)
    rw [List.length_cons, List.length_append, List.length_singleton] at hfuel
    rw [List.cons_append, List.append_assoc, readValue,
      show skipSpace ('\x7b' :: _) = '\x7b' :: _ from skipSpace_append blank_nil (by decide)]
    dsimp only
    rw [if_neg (by decide), if_neg (by decide), if_pos rfl]
    rw [List.singleton_append, hskip]
    exact h.reads f rest (by omega)

end Steps

/-! ## §8. The two writers. -/

mutual

theorem reads_writeValue : ∀ (levels : Nat) (j : Json), j.Fits levels → Reads j.writeValue j
  | _, .null, _ => reads_null
  | _, .bool b, _ => reads_bool b
  | _, .number _, h => reads_number h
  | _, .string s, _ => reads_string s
  | _, .broken, h => h.elim
  | 0, .array _, h => h.elim
  | 0, .object _, h => h.elim
  | _ + 1, .array [], _ => reads_emptyArray
  | _ + 1, .object [], _ => reads_emptyObject
  | levels + 1, .array (item :: items), h => (reads_writeItems levels item items h).array
  | levels + 1, .object (member :: members), h =>
    (reads_writeMembers levels member members h).object

theorem reads_writeItems :
    ∀ (levels : Nat) (item : Json) (items : List Json), AllFit levels (item :: items) →
      ReadsItems (writeItems (item :: items)) (item :: items)
  | levels, item, [], h => by
    have hlast := (reads_writeValue levels item h.1).lastItem blank_nil blank_nil
    rwa [List.append_nil] at hlast
  | levels, item, next :: items, h =>
    (reads_writeValue levels item h.1).nextItem blank_nil (reads_writeItems levels next items h.2)

theorem reads_writeMembers :
    ∀ (levels : Nat) (member : String × Json) (members : List (String × Json)),
      MembersFit levels (member :: members) →
        ReadsMembers (writeMembers (member :: members)) (member :: members)
  | levels, (name, j), [], h => by
    have hlast := (reads_writeValue levels j h.1).lastMember blank_nil blank_nil blank_nil name
    rwa [List.append_nil] at hlast
  | levels, (name, j), next :: members, h =>
    (reads_writeValue levels j h.1).nextMember blank_nil blank_nil name
      (reads_writeMembers levels next members h.2)

end

mutual

theorem reads_prettyValue :
    ∀ (levels level : Nat) (j : Json), j.Fits levels → Reads (j.prettyValue level) j
  | _, _, .null, _ => reads_null
  | _, _, .bool b, _ => reads_bool b
  | _, _, .number _, h => reads_number h
  | _, _, .string s, _ => reads_string s
  | _, _, .broken, h => h.elim
  | 0, _, .array _, h => h.elim
  | 0, _, .object _, h => h.elim
  | _ + 1, _, .array [], _ => reads_emptyArray
  | _ + 1, _, .object [], _ => reads_emptyObject
  | levels + 1, level, .array (item :: items), h =>
    (reads_prettyItems levels level item items h).array
  | levels + 1, level, .object (member :: members), h =>
    (reads_prettyMembers levels level member members h).object

/-- The items with the line of the closing bracket. -/
theorem reads_prettyItems :
    ∀ (levels level : Nat) (item : Json) (items : List Json), AllFit levels (item :: items) →
      ReadsItems (prettyItems (level + 1) (item :: items) ++ newLine level) (item :: items)
  | levels, level, item, [], h => by
    have hlast := (reads_prettyValue levels (level + 1) item h.1).lastItem
      (blank_newLine (level + 1)) (blank_newLine level)
    rw [prettyItems, List.append_assoc]
    exact hlast
  | levels, level, item, next :: items, h => by
    have hnext := (reads_prettyValue levels (level + 1) item h.1).nextItem
      (blank_newLine (level + 1)) (reads_prettyItems levels level next items h.2)
    rw [prettyItems, List.append_assoc, List.append_assoc]
    · exact hnext
    · exact nofun

/-- The members with the line of the closing brace. -/
theorem reads_prettyMembers :
    ∀ (levels level : Nat) (member : String × Json) (members : List (String × Json)),
      MembersFit levels (member :: members) →
        ReadsMembers (prettyMembers (level + 1) (member :: members) ++ newLine level)
          (member :: members)
  | levels, level, (name, j), [], h => by
    have hlast := (reads_prettyValue levels (level + 1) j h.1).lastMember
      (blank_newLine (level + 1)) blank_space (blank_newLine level) name
    rw [prettyMembers, List.append_assoc, List.append_assoc]
    exact hlast
  | levels, level, (name, j), next :: members, h => by
    have hnext := (reads_prettyValue levels (level + 1) j h.1).nextMember
      (blank_newLine (level + 1)) blank_space name
      (reads_prettyMembers levels level next members h.2)
    rw [prettyMembers, List.append_assoc, List.append_assoc, List.append_assoc]
    · simpa using hnext
    · exact nofun

end

/-! ## §9. Whole texts. -/

theorem read?_of_reads {cs : List Char} {j : Json} (h : Reads cs j) (hj : j.Fits maxLevels) :
    read? (String.ofList cs) = some j := by
  have hend : Stops [] := nofun
  have hread := h.reads (cs.length + 1) [] (Nat.le_succ _) hend
  rw [List.append_nil] at hread
  unfold read?
  simp only [String.toList_ofList, hread]
  show (if skipSpace [] = [] then some (j.cutBelow maxLevels) else none) = _
  rw [if_pos (show skipSpace [] = [] from rfl), cutBelow_of_fits _ _ hj]

/-- **A value that is written is read back.** -/
theorem read?_write {j : Json} (h : j.Fits maxLevels) : read? j.write = some j :=
  read?_of_reads (reads_writeValue _ j h) h

/-- **A value that is written over lines is read back.** -/
theorem read?_pretty {j : Json} (h : j.Fits maxLevels) : read? j.pretty = some j :=
  read?_of_reads (reads_prettyValue _ 0 j h) h

end ShapeEstimator.Json
