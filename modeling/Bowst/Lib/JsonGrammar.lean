/-
Bowst.Lib.JsonGrammar — the grammar of JSON texts, as bytes.

The grammar is over what a name and a scalar may be, so that a reader with its own
idea of these has a grammar too, and grammars compare by their names and scalars.
Nesting is a number: a value of nesting `n` opens no more than `n` containers inside
one another. A list of items carries what the items are, for readers that care about
them.

  §1 Items  — white space, and lists with separators.
  §2 Values — scalars, objects and arrays.
  §3 Strings and the numbers and strings of RFC 8259.
-/
import Bowst.Lib.Bytes
import Mathlib.Data.List.TakeWhile

namespace Bowst.Lib

/-! ## §1 Items -/

section Scan

variable {α : Type} {p : α → Bool}

/-- A scan takes what satisfies its test and stops at the first thing that does
not. -/
theorem exists_takeWhile_split (p : α → Bool) (l : List α) :
    ∃ back, l = l.takeWhile p ++ back ∧ (∀ x ∈ l.takeWhile p, p x = true) ∧
      ∀ y ∈ back.head?, p y = false := by
  refine ⟨l.dropWhile p, List.takeWhile_append_dropWhile.symm, fun x => List.mem_takeWhile_imp, ?_⟩
  intro y hy
  have hhead := List.head?_dropWhile_not p l
  rw [hy] at hhead
  exact hhead

theorem takeWhile_append_stop {xs ys : List α} (hx : ∀ x ∈ xs, p x = true)
    (hy : ∀ y ∈ ys.head?, p y = false) : (xs ++ ys).takeWhile p = xs := by
  rw [List.takeWhile_append_of_pos hx]
  cases ys with
  | nil => simp
  | cons y ys => simp [hy y (by simp)]

/-- The first thing that satisfies a test. -/
theorem findIdx?_eq_some_split {l : List α} {n : Nat} : l.findIdx? p = some n ↔
    ∃ front b back, l = front ++ b :: back ∧ front.length = n ∧ (∀ x ∈ front, p x = false) ∧
      p b = true := by
  induction l generalizing n with
  | nil => simp
  | cons a l ih =>
      rw [List.findIdx?_cons]
      by_cases ha : p a = true
      · rw [if_pos ha]
        constructor
        · rintro h
          cases h
          exact ⟨[], a, l, rfl, rfl, by simp, ha⟩
        · rintro ⟨front, b, back, heq, hlen, hfront, hb⟩
          cases front with
          | nil => exact congrArg some hlen
          | cons x front =>
              cases heq
              exact absurd ha (by simp [hfront a (by simp)])
      · rw [if_neg ha]
        constructor
        · intro h
          obtain ⟨m, hm, rfl⟩ := Option.map_eq_some_iff.mp h
          obtain ⟨front, b, back, rfl, hlen, hfront, hb⟩ := ih.mp hm
          refine ⟨a :: front, b, back, rfl, by simp [hlen], ?_, hb⟩
          intro x hx
          rcases List.mem_cons.mp hx with rfl | hx
          · simpa using ha
          · exact hfront x hx
        · rintro ⟨front, b, back, heq, hlen, hfront, hb⟩
          cases front with
          | nil =>
              cases heq
              exact absurd hb ha
          | cons x front =>
              cases heq
              rw [ih.mpr ⟨front, b, back, rfl, rfl, fun y hy => hfront y (by simp [hy]), hb⟩]
              simpa using hlen

end Scan

/-- White space: spaces, tabs and line endings. -/
def White (text : List UInt8) : Prop := ∀ b ∈ text, b = 32 ∨ b = 9 ∨ b = 10 ∨ b = 13

section Items

variable {α β : Type}

/-- A text between white space. -/
def Padded (P : List UInt8 → Prop) (text : List UInt8) : Prop :=
  ∃ w t w', White w ∧ P t ∧ White w' ∧ text = w ++ (t ++ w')

/-- Items with commas between them. -/
inductive Items (Item : α → List UInt8 → Prop) : List α → List UInt8 → Prop
  | one {a : α} {t : List UInt8} (h : Item a t) : Items Item [a] t
  | more {a : α} {as : List α} {t ts : List UInt8} (h : Item a t) (hs : Items Item as ts) :
      Items Item (a :: as) (t ++ 44 :: ts)

/-- What stands between the brackets of a container. -/
def Listed (Item : α → List UInt8 → Prop) (as : List α) (text : List UInt8) : Prop :=
  (as = [] ∧ White text) ∨ Items Item as text

theorem Items.mono {Item Item' : α → List UInt8 → Prop} {as : List α} {t : List UInt8}
    (himp : ∀ a ∈ as, ∀ t, Item a t → Item' a t) (h : Items Item as t) : Items Item' as t := by
  induction h with
  | one h => exact .one (himp _ (by simp) _ h)
  | more h _ ih => exact .more (himp _ (by simp) _ h) (ih fun a ha => himp a (by simp [ha]))

theorem Listed.mono {Item Item' : α → List UInt8 → Prop} {as : List α} {t : List UInt8}
    (himp : ∀ a ∈ as, ∀ t, Item a t → Item' a t) (h : Listed Item as t) : Listed Item' as t :=
  h.imp_right fun hitems => hitems.mono himp

/-- An item with white space around it. -/
def PaddedItem (Core : α → List UInt8 → Prop) (a : α) (text : List UInt8) : Prop :=
  ∃ w c w', White w ∧ Core a c ∧ White w' ∧ text = w ++ (c ++ w')

/-- What stands before an item: white space, with a comma in it behind another
item. -/
def Separator : Bool → List UInt8 → Prop
  | false, text => White text
  | true, text => ∃ w w', White w ∧ White w' ∧ text = w ++ 44 :: w'

/-- A container from one of its items on, up to and with its closing byte, as a
reader takes it that knows only whether it has just read an item. -/
inductive Tail (Core : α → List UInt8 → Prop) (close : UInt8) : Bool → List α → List UInt8 → Prop
  | close {after : Bool} {w : List UInt8} (hw : White w) : Tail Core close after [] (w ++ [close])
  | more {after : Bool} {a : α} {as : List α} {sep c t : List UInt8} (hsep : Separator after sep)
      (hc : Core a c) (ht : Tail Core close true as t) :
      Tail Core close after (a :: as) (sep ++ (c ++ t))

variable {Core : α → List UInt8 → Prop} {close : UInt8} {as : List α}

theorem White.append {w w' : List UInt8} (h : White w) (h' : White w') : White (w ++ w') := by
  intro b hb
  rcases List.mem_append.mp hb with hb | hb
  · exact h b hb
  · exact h' b hb

theorem white_nil : White [] := by simp [White]

/-- Behind an item, either the container ends or a comma and more items follow. -/
theorem Tail.items {t : List UInt8} (h : Tail Core close true as t) :
    (as = [] ∧ ∃ w, White w ∧ t = w ++ [close]) ∨
      ∃ w body, White w ∧ Items (PaddedItem Core) as body ∧ t = w ++ 44 :: (body ++ [close]) := by
  generalize hafter : true = after at h
  induction h with
  | close hw => exact .inl ⟨rfl, _, hw, rfl⟩
  | @more after a as sep c t hsep hc ht ih =>
      subst hafter
      obtain ⟨w, w', hw, hw', rfl⟩ := hsep
      refine .inr ?_
      rcases ih rfl with ⟨rfl, v, hv, rfl⟩ | ⟨v, body, hv, hbody, rfl⟩
      · exact ⟨w, w' ++ (c ++ v), hw, .one ⟨w', c, v, hw', hc, hv, rfl⟩, by simp⟩
      · exact ⟨w, w' ++ (c ++ v) ++ 44 :: body, hw, .more ⟨w', c, v, hw', hc, hv, rfl⟩ hbody, by simp⟩

/-- Items and the closing byte, behind a separator. -/
theorem Items.tail {body : List UInt8} (h : Items (PaddedItem Core) as body) :
    ∀ {after : Bool} {sep : List UInt8}, (∀ w, White w → Separator after (sep ++ w)) →
      Tail Core close after as (sep ++ (body ++ [close])) := by
  induction h with
  | one h =>
      intro after sep hsep
      obtain ⟨w, c, w', hw, hc, hw', rfl⟩ := h
      have htail : Tail Core close after _ ((sep ++ w) ++ (c ++ (w' ++ [close]))) :=
        .more (hsep w hw) hc (.close hw')
      simpa using htail
  | more h _ ih =>
      intro after sep hsep
      obtain ⟨w, c, w', hw, hc, hw', rfl⟩ := h
      have hrest : Tail Core close true _ ((w' ++ [44]) ++ (_ ++ [close])) :=
        ih fun v hv => ⟨w', v, hw', hv, by simp⟩
      have htail := Tail.more (hsep w hw) hc hrest
      simpa using htail

/-- A container's items, read one by one. -/
theorem tail_iff_listed {text : List UInt8} : Tail Core close false as text ↔
    ∃ body, Listed (PaddedItem Core) as body ∧ text = body ++ [close] := by
  constructor
  · intro h
    cases h with
    | close hw => exact ⟨_, .inl ⟨rfl, hw⟩, rfl⟩
    | @more _ a as sep c t hsep hc ht =>
        rcases ht.items with ⟨rfl, w, hw, rfl⟩ | ⟨w, body, hw, hbody, rfl⟩
        · exact ⟨sep ++ (c ++ w), .inr (.one ⟨sep, c, w, hsep, hc, hw, rfl⟩), by simp⟩
        · exact ⟨sep ++ (c ++ w) ++ 44 :: body, .inr (.more ⟨sep, c, w, hsep, hc, hw, rfl⟩ hbody),
            by simp⟩
  · rintro ⟨body, ⟨rfl, hw⟩ | hitems, rfl⟩
    · exact .close hw
    · have htail : Tail Core close false as ([] ++ (body ++ [close])) :=
        hitems.tail fun w hw => hw
      exact htail

/-- Items without white space. -/
theorem listed_intercalate {α : Type} {Core : α → List UInt8 → Prop} {render : α → List UInt8} :
    ∀ {as : List α}, (∀ a ∈ as, Core a (render a)) →
      Listed (PaddedItem Core) as ([44].intercalate (as.map render)) := by
  have hitem : ∀ {a : α}, Core a (render a) → PaddedItem Core a (render a) := fun h =>
    ⟨[], _, [], white_nil, h, white_nil, by simp⟩
  intro as
  induction as with
  | nil => exact fun _ => .inl ⟨rfl, white_nil⟩
  | cons a as ih =>
      intro h
      have ha := hitem (h a (by simp))
      cases as with
      | nil => exact .inr (.one (by simpa using ha))
      | cons b as =>
          rcases ih fun x hx => h x (by simp [hx]) with ⟨hnil, -⟩ | hrest
          · cases hnil
          · refine .inr ?_
            simpa [List.intercalate_cons_cons] using Items.more ha hrest

end Items

/-! ## §2 Values -/

section Values

variable (Name Scalar : List UInt8 → Prop)

/-- An element of an array. -/
def Element (Value : List UInt8 → Prop) (value text : List UInt8) : Prop :=
  Value value ∧ text = value

/-- A member of an object: a name, a colon and a value. -/
def Member (Value : List UInt8 → Prop) (member : List UInt8 × List UInt8) (text : List UInt8) :
    Prop :=
  Name member.1 ∧ Value member.2 ∧ ∃ w w', White w ∧ White w' ∧
    text = 34 :: (member.1 ++ 34 :: (w ++ 58 :: (w' ++ member.2)))

/-- A value of nesting `n`. -/
def Value : Nat → List UInt8 → Prop
  | 0, text => Scalar text
  | n + 1, text => Scalar text ∨
      (∃ members body, Listed (PaddedItem (Member Name (Value n))) members body ∧
        text = 123 :: (body ++ [125])) ∨
      ∃ elements body, Listed (PaddedItem (Element (Value n))) elements body ∧
        text = 91 :: (body ++ [93])

/-- A document: one value, and white space. -/
def Document (n : Nat) (text : List UInt8) : Prop := Padded (Value Name Scalar n) text

end Values

section Mono

variable {Name Name' Scalar Scalar' : List UInt8 → Prop}

theorem PaddedItem.mono {α : Type} {Core Core' : α → List UInt8 → Prop} {a : α} {t : List UInt8}
    (himp : ∀ t, Core a t → Core' a t) (h : PaddedItem Core a t) : PaddedItem Core' a t := by
  obtain ⟨w, c, w', hw, hc, hw', rfl⟩ := h
  exact ⟨w, c, w', hw, himp c hc, hw', rfl⟩

theorem Element.mono {V V' : List UInt8 → Prop} (hvalue : ∀ t, V t → V' t)
    {value text : List UInt8} (h : Element V value text) : Element V' value text :=
  ⟨hvalue _ h.1, h.2⟩

theorem Member.mono {V V' : List UInt8 → Prop} (hname : ∀ t, Name t → Name' t)
    (hvalue : ∀ t, V t → V' t) {member : List UInt8 × List UInt8} {text : List UInt8}
    (h : Member Name V member text) : Member Name' V' member text := by
  obtain ⟨hn, hv, htext⟩ := h
  exact ⟨hname _ hn, hvalue _ hv, htext⟩

/-- More names and scalars, more values. -/
theorem Value.mono (hname : ∀ t, Name t → Name' t) (hscalar : ∀ t, Scalar t → Scalar' t) :
    ∀ (n : Nat) (t : List UInt8), Value Name Scalar n t → Value Name' Scalar' n t := by
  intro n
  induction n with
  | zero => intro t h; exact hscalar t h
  | succ n ih =>
      intro t h
      rcases h with h | ⟨members, body, hbody, rfl⟩ | ⟨elements, body, hbody, rfl⟩
      · exact .inl (hscalar t h)
      · refine .inr (.inl ⟨members, body, hbody.mono fun _ _ _ hitem => ?_, rfl⟩)
        exact hitem.mono fun _ hm => hm.mono hname ih
      · refine .inr (.inr ⟨elements, body, hbody.mono fun _ _ _ hitem => ?_, rfl⟩)
        exact hitem.mono fun _ he => he.mono ih

end Mono

/-! ## §3 Strings and numbers -/

/-- A byte that stands for itself in a string. -/
def PlainByte (b : UInt8) : Prop := 0x20 ≤ b ∧ b ≠ 34 ∧ b ≠ 92

/-- The bytes between the quotes of a string: plain ones, and escapes behind a
backslash. -/
inductive Chars (Escape : List UInt8 → Prop) : List UInt8 → Prop
  | nil : Chars Escape []
  | plain {b : UInt8} {t : List UInt8} (h : PlainByte b) (ht : Chars Escape t) :
      Chars Escape (b :: t)
  | escape {e t : List UInt8} (h : Escape e) (ht : Chars Escape t) : Chars Escape (92 :: (e ++ t))

namespace Rfc8259

/-- `DIGIT`. -/
def Digit (b : UInt8) : Prop := 48 ≤ b ∧ b ≤ 57

/-- `HEXDIG`, in either case. -/
def HexDigit (b : UInt8) : Prop := Digit b ∨ (65 ≤ b ∧ b ≤ 70) ∨ (97 ≤ b ∧ b ≤ 102)

/-- `int`: no zero before other digits. -/
def Int (t : List UInt8) : Prop :=
  t = [48] ∨ ∃ d ds, t = d :: ds ∧ Digit d ∧ d ≠ 48 ∧ ∀ b ∈ ds, Digit b

/-- One or more digits. -/
def Digits (t : List UInt8) : Prop := t ≠ [] ∧ ∀ b ∈ t, Digit b

/-- `frac`, which may be missing. -/
def Frac (t : List UInt8) : Prop := t = [] ∨ ∃ ds, t = 46 :: ds ∧ Digits ds

/-- `exp`, which may be missing. -/
def Exp (t : List UInt8) : Prop :=
  t = [] ∨ ∃ e sign ds, (e = 101 ∨ e = 69) ∧ (sign = [] ∨ sign = [43] ∨ sign = [45]) ∧ Digits ds ∧
    t = e :: (sign ++ ds)

/-- `number`. -/
def Number (t : List UInt8) : Prop :=
  ∃ minus int frac exp, (minus = [] ∨ minus = [45]) ∧ Int int ∧ Frac frac ∧ Exp exp ∧
    t = minus ++ (int ++ (frac ++ exp))

/-- What may follow a backslash. -/
def Escape (t : List UInt8) : Prop :=
  (∃ b ∈ ascii "\"\\/bfnrt", t = [b]) ∨
    ∃ a b c d, HexDigit a ∧ HexDigit b ∧ HexDigit c ∧ HexDigit d ∧ t = [117, a, b, c, d]

/-- `string`, in UTF-8. -/
def Str (t : List UInt8) : Prop :=
  ∃ s, Chars Escape s ∧ validUtf8 s = true ∧ t = 34 :: (s ++ [34])

/-- A value that is not a container. -/
def Scalar (t : List UInt8) : Prop :=
  t = ascii "true" ∨ t = ascii "false" ∨ t = ascii "null" ∨ Str t ∨ Number t

/-- The text of a member's name, without escapes. -/
def PlainName (t : List UInt8) : Prop := (∀ b ∈ t, PlainByte b) ∧ validUtf8 t = true

end Rfc8259

end Bowst.Lib
