import Mathlib

/-!
# Outlines

The text of a tree has an outline: words, words with other words in parentheses behind them, and lists
in parentheses.  Between two parts of a list there is one space.  A word is plain, with no space,
parenthesis or quote in it, or it stands in quotes and has no other quote in it.  No two outlines have
one text.
-/

namespace Lox

inductive Outline where
  | word (text : String)
  /-- A word, and directly behind it other words in parentheses. -/
  | applied (text : String) (words : List String)
  | list (parts : List Outline)

namespace Outline

def spaced (texts : List (List Char)) : List Char :=
  [' '].intercalate texts

mutual

def chars : Outline → List Char
  | .word text => text.toList
  | .applied text words => text.toList ++ '(' :: spaced (words.map String.toList) ++ [')']
  | .list parts => '(' :: spaced (charsAll parts) ++ [')']

def charsAll : List Outline → List (List Char)
  | [] => []
  | part :: parts => part.chars :: charsAll parts

end

/-! ## Words -/

def isPlain (c : Char) : Bool :=
  c != ' ' && c != '(' && c != ')' && c != '"'

def Plain (text : String) : Prop :=
  text ≠ "" ∧ ∀ c ∈ text.toList, isPlain c = true

def Quoted (text : String) : Prop :=
  ∃ body, '"' ∉ body ∧ text.toList = '"' :: body ++ ['"']

mutual

def Proper : Outline → Prop
  | .word text => Plain text ∨ Quoted text
  | .applied text words => Plain text ∧ ∀ word ∈ words, Plain word
  | .list parts => AllProper parts

def AllProper : List Outline → Prop
  | [] => True
  | part :: parts => part.Proper ∧ AllProper parts

end

/-- What comes after a part: a space, the end of the list around it, or nothing. -/
def Stops (rest : List Char) : Prop :=
  ∀ c ∈ rest.head?, c = ' ' ∨ c = ')'

section Words

variable {text text' : String} {rest rest' : List Char}

theorem span_of_stop {p : Char → Bool} {front : List Char} (hall : ∀ c ∈ front, p c = true)
    (hstop : ∀ c ∈ rest.head?, p c = false) :
    (front ++ rest).takeWhile p = front ∧ (front ++ rest).dropWhile p = rest := by
  rw [List.takeWhile_append_of_pos hall, List.dropWhile_append_of_pos hall]
  cases rest with
  | nil => simp
  | cons c rest => simp [hstop c rfl]

theorem append_unique {p : Char → Bool} {front front' : List Char} (hall : ∀ c ∈ front, p c = true)
    (hall' : ∀ c ∈ front', p c = true) (hstop : ∀ c ∈ rest.head?, p c = false)
    (hstop' : ∀ c ∈ rest'.head?, p c = false) (h : front ++ rest = front' ++ rest') :
    front = front' ∧ rest = rest' := by
  obtain ⟨htake, hdrop⟩ := span_of_stop hall hstop
  obtain ⟨htake', hdrop'⟩ := span_of_stop hall' hstop'
  rw [h] at htake hdrop
  exact ⟨htake.symm.trans htake', hdrop.symm.trans hdrop'⟩

theorem Stops.not_plain (h : Stops rest) : ∀ c ∈ rest.head?, isPlain c = false := by
  intro c hc
  rcases h c hc with rfl | rfl <;> rfl

theorem plain_unique (hplain : Plain text) (hplain' : Plain text')
    (hstop : ∀ c ∈ rest.head?, isPlain c = false) (hstop' : ∀ c ∈ rest'.head?, isPlain c = false)
    (h : text.toList ++ rest = text'.toList ++ rest') : text = text' ∧ rest = rest' := by
  obtain ⟨htext, hrest⟩ := append_unique hplain.2 hplain'.2 hstop hstop' h
  exact ⟨String.toList_inj.mp htext, hrest⟩

theorem quoted_unique (hquoted : Quoted text) (hquoted' : Quoted text')
    (h : text.toList ++ rest = text'.toList ++ rest') : text = text' ∧ rest = rest' := by
  obtain ⟨body, hbody, htext⟩ := hquoted
  obtain ⟨body', hbody', htext'⟩ := hquoted'
  have hinner : ∀ {body : List Char}, '"' ∉ body → ∀ c ∈ body, (c != '"') = true := by
    intro body hbody c hc
    rw [bne_iff_ne]
    rintro rfl
    exact hbody hc
  have hboth : body ++ '"' :: rest = body' ++ '"' :: rest' := by simpa [htext, htext'] using h
  obtain ⟨rfl, hrest⟩ := append_unique (p := (· != '"')) (hinner hbody) (hinner hbody') (by simp)
    (by simp) hboth
  exact ⟨String.toList_inj.mp (htext.trans htext'.symm), (List.cons.inj hrest).2⟩

theorem Plain.head (h : Plain text) : ∃ c cs, text.toList = c :: cs ∧ isPlain c = true := by
  obtain ⟨hne, hall⟩ := h
  cases htext : text.toList with
  | nil => exact absurd (String.toList_eq_nil_iff.mp htext) hne
  | cons c cs => exact ⟨c, cs, rfl, hall c (htext ▸ List.mem_cons_self)⟩

end Words

/-! ## Parts with spaces between them -/

theorem spaced_cons (first : List Char) (others : List (List Char)) (rest : List Char) :
    spaced (first :: others) ++ ')' :: rest =
      first ++ (if others.isEmpty then ')' :: rest else ' ' :: (spaced others ++ ')' :: rest)) := by
  cases others with
  | nil => simp [spaced]
  | cons second more => simp [spaced, List.intercalate_cons_cons]

/-- If each part can be told from what follows it, so can the parts of a list. -/
theorem spaced_unique {α : Type} {chars : α → List Char} {as bs : List α} {rest rest' : List Char}
    (hunique : ∀ a ∈ as, ∀ b ∈ bs, ∀ {rest rest'}, Stops rest → Stops rest' →
      chars a ++ rest = chars b ++ rest' → a = b ∧ rest = rest')
    (has : ∀ a ∈ as, ∃ c cs, chars a = c :: cs ∧ c ≠ ')')
    (hbs : ∀ b ∈ bs, ∃ c cs, chars b = c :: cs ∧ c ≠ ')')
    (h : spaced (as.map chars) ++ ')' :: rest = spaced (bs.map chars) ++ ')' :: rest') :
    as = bs ∧ rest = rest' := by
  induction as generalizing bs with
  | nil =>
      cases bs with
      | nil => exact ⟨rfl, (List.cons.inj h).2⟩
      | cons b bs =>
          obtain ⟨c, cs, hb, hc⟩ := hbs b List.mem_cons_self
          rw [List.map_cons, spaced_cons, hb] at h
          exact absurd (List.cons.inj h).1.symm hc
  | cons a as ih =>
      cases bs with
      | nil =>
          obtain ⟨c, cs, ha, hc⟩ := has a List.mem_cons_self
          rw [List.map_cons, spaced_cons, ha] at h
          exact absurd (List.cons.inj h).1 hc
      | cons b bs =>
          have hstops : ∀ {others : List (List Char)} {rest},
              Stops (if others.isEmpty then ')' :: rest else ' ' :: (spaced others ++ ')' :: rest)) := by
            intro others rest c hc
            split at hc
            · exact .inr (Option.some.inj hc).symm
            · exact .inl (Option.some.inj hc).symm
          rw [List.map_cons, List.map_cons, spaced_cons, spaced_cons] at h
          obtain ⟨rfl, htail⟩ := hunique a List.mem_cons_self b List.mem_cons_self hstops hstops h
          cases as with
          | nil =>
              cases bs with
              | nil => exact ⟨rfl, (List.cons.inj htail).2⟩
              | cons _ _ => cases (List.cons.inj htail).1
          | cons a' as =>
              cases bs with
              | nil => cases (List.cons.inj htail).1
              | cons b' bs =>
                  obtain ⟨heq, hrest⟩ := ih
                    (fun x hx y hy => hunique x (List.mem_cons_of_mem _ hx) y (List.mem_cons_of_mem _ hy))
                    (fun x hx => has x (List.mem_cons_of_mem _ hx))
                    (fun y hy => hbs y (List.mem_cons_of_mem _ hy)) (List.cons.inj htail).2
                  exact ⟨congrArg _ heq, hrest⟩

/-! ## Outlines -/

theorem charsAll_eq_map (parts : List Outline) : charsAll parts = parts.map chars := by
  induction parts with
  | nil => rfl
  | cons part parts ih => rw [charsAll, ih, List.map_cons]

theorem AllProper.mem {parts : List Outline} (h : AllProper parts) {part : Outline}
    (hpart : part ∈ parts) : part.Proper := by
  induction parts with
  | nil => cases hpart
  | cons first parts ih =>
      rcases List.mem_cons.mp hpart with rfl | hpart
      · exact h.1
      · exact ih h.2 hpart

theorem list_append (parts : List Outline) (rest : List Char) :
    (list parts).chars ++ rest = '(' :: (spaced (parts.map chars) ++ ')' :: rest) := by
  simp [chars, charsAll_eq_map]

theorem applied_append (text : String) (words : List String) (rest : List Char) :
    (applied text words).chars ++ rest =
      text.toList ++ '(' :: (spaced (words.map String.toList) ++ ')' :: rest) := by
  simp [chars]

theorem Proper.head {outline : Outline} (h : outline.Proper) :
    ∃ c cs, outline.chars = c :: cs ∧
      match outline with
      | .word text => isPlain c = true ∧ Plain text ∨ c = '"' ∧ Quoted text
      | .applied _ _ => isPlain c = true
      | .list _ => c = '(' := by
  cases outline with
  | word text =>
      rcases h with hplain | ⟨body, hbody, htext⟩
      · obtain ⟨c, cs, htext, hc⟩ := hplain.head
        exact ⟨c, cs, htext, .inl ⟨hc, hplain⟩⟩
      · exact ⟨'"', body ++ ['"'], htext, .inr ⟨rfl, body, hbody, htext⟩⟩
  | applied text words =>
      obtain ⟨c, cs, htext, hc⟩ := h.1.head
      exact ⟨c, cs ++ '(' :: spaced (words.map String.toList) ++ [')'], by simp [chars, htext], hc⟩
  | list parts => exact ⟨'(', _, rfl, rfl⟩

theorem Proper.begins {outline : Outline} (h : outline.Proper) :
    ∃ c cs, outline.chars = c :: cs ∧ c ≠ ')' := by
  obtain ⟨c, cs, hchars, hc⟩ := h.head
  refine ⟨c, cs, hchars, ?_⟩
  rintro rfl
  cases outline with
  | word text => simp [isPlain] at hc
  | applied text words => simp [isPlain] at hc
  | list parts => simp at hc

/-- An outline can be told from what follows its text. -/
def Distinct (outline : Outline) : Prop :=
  ∀ other : Outline, other.Proper → ∀ {rest rest'}, Stops rest → Stops rest' →
    outline.chars ++ rest = other.chars ++ rest' → outline = other ∧ rest = rest'

theorem stops_not_paren {rest more : List Char} (h : Stops rest) : rest ≠ '(' :: more := by
  rintro rfl
  rcases h '(' rfl with hparen | hparen <;> cases hparen

theorem paren_not_plain {more : List Char} : ∀ c ∈ ('(' :: more).head?, isPlain c = false := by
  rintro _ ⟨⟩
  rfl

theorem distinct_word {text : String} (h : Plain text ∨ Quoted text) : Distinct (.word text) := by
  intro other hother rest rest' hstops hstops' heq
  have hproper : (word text).Proper := h
  obtain ⟨c, cs, hchars, hc⟩ := hproper.head
  obtain ⟨d, ds, hchars', hd⟩ := hother.head
  obtain rfl : c = d := by
    have hboth := heq
    rw [hchars, hchars'] at hboth
    exact (List.cons.inj hboth).1
  cases other with
  | word text' =>
      rcases hc with ⟨hc, hplain⟩ | ⟨rfl, hquoted⟩
      · rcases hd with ⟨-, hplain'⟩ | ⟨rfl, -⟩
        · obtain ⟨rfl, hrest⟩ :=
            plain_unique hplain hplain' hstops.not_plain hstops'.not_plain heq
          exact ⟨rfl, hrest⟩
        · cases hc
      · rcases hd with ⟨hd, -⟩ | ⟨-, hquoted'⟩
        · cases hd
        · obtain ⟨rfl, hrest⟩ := quoted_unique hquoted hquoted' heq
          exact ⟨rfl, hrest⟩
  | applied text' words' =>
      rcases hc with ⟨-, hplain⟩ | ⟨rfl, -⟩
      · rw [applied_append] at heq
        obtain ⟨-, hrest⟩ := plain_unique hplain hother.1 hstops.not_plain paren_not_plain heq
        exact absurd hrest (stops_not_paren hstops)
      · cases hd
  | list parts' =>
      obtain rfl : c = '(' := hd
      rcases hc with ⟨hc, -⟩ | ⟨hc, -⟩ <;> cases hc

theorem distinct_applied {text : String} {words : List String} (h : (applied text words).Proper) :
    Distinct (.applied text words) := by
  intro other hother rest rest' hstops hstops' heq
  obtain ⟨c, cs, hchars, hc⟩ := h.head
  obtain ⟨d, ds, hchars', hd⟩ := hother.head
  obtain rfl : c = d := by
    have hboth := heq
    rw [hchars, hchars'] at hboth
    exact (List.cons.inj hboth).1
  cases other with
  | word text' =>
      obtain ⟨heq', -⟩ := distinct_word hother _ h hstops' hstops heq.symm
      cases heq'
  | applied text' words' =>
      rw [applied_append, applied_append] at heq
      obtain ⟨rfl, hrest⟩ := plain_unique h.1 hother.1 paren_not_plain paren_not_plain heq
      have hbegins : ∀ {words : List String}, (∀ text ∈ words, Plain text) → ∀ text ∈ words,
          ∃ c cs, text.toList = c :: cs ∧ c ≠ ')' := by
        intro words hwords text htext
        have hproper : (word text).Proper := .inl (hwords text htext)
        exact hproper.begins
      obtain ⟨rfl, hrest'⟩ := spaced_unique
        (fun a ha b hb rest rest' hrest hrest' => plain_unique (h.2 a ha) (hother.2 b hb)
          hrest.not_plain hrest'.not_plain)
        (hbegins h.2) (hbegins hother.2) (List.cons.inj hrest).2
      exact ⟨rfl, hrest'⟩
  | list parts' =>
      obtain rfl : c = '(' := hd
      cases hc

theorem distinct_list {parts : List Outline} (h : (list parts).Proper)
    (hparts : ∀ part ∈ parts, Distinct part) : Distinct (.list parts) := by
  intro other hother rest rest' hstops hstops' heq
  cases other with
  | word text' =>
      obtain ⟨heq', -⟩ := distinct_word hother _ h hstops' hstops heq.symm
      cases heq'
  | applied text' words' =>
      obtain ⟨heq', -⟩ := distinct_applied hother _ h hstops' hstops heq.symm
      cases heq'
  | list parts' =>
      rw [list_append, list_append] at heq
      obtain ⟨rfl, hrest⟩ := spaced_unique
        (fun a ha b hb rest rest' => hparts a ha b (AllProper.mem hother hb))
        (fun a ha => (AllProper.mem h ha).begins) (fun b hb => (AllProper.mem hother hb).begins)
        (List.cons.inj heq).2
      exact ⟨rfl, hrest⟩

mutual

theorem distinct : ∀ outline : Outline, outline.Proper → Distinct outline
  | .word _, h => distinct_word h
  | .applied _ _, h => distinct_applied h
  | .list parts, h => distinct_list h (distinctAll parts h)

theorem distinctAll : ∀ parts : List Outline, AllProper parts → ∀ part ∈ parts, Distinct part
  | [], _ => nofun
  | first :: parts, h => by
      intro part hpart
      rcases List.mem_cons.mp hpart with heq | hpart
      · exact heq ▸ distinct first h.1
      · exact distinctAll parts h.2 part hpart

end

/-- No two outlines have one text. -/
theorem chars_injective {outline other : Outline} (h : outline.Proper) (h' : other.Proper)
    (heq : outline.chars = other.chars) : outline = other := by
  have hstops : Stops [] := nofun
  have hboth : outline.chars ++ [] = other.chars ++ [] := by rw [heq]
  exact (distinct outline h other h' hstops hstops hboth).1

end Outline

end Lox
