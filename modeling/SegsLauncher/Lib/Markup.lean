import Mathlib.Data.List.Basic
import Mathlib.Data.List.TakeWhile
import Mathlib.Logic.Function.Iterate
/-!
# Marked-up text

A text with tags is cut at `<` and `>` in turn into *chunks*: text, tag, text, tag, and so on. A tag has a
name and attributes, an unquoted value ending at white space; texts and values may spell characters as
entity escapes, `&name;`. What counts as white space (`isSpace`) and which names are entities (`entity`)
are parameters.

The results are about foreign text put between tags or into a value: cutting and decoding never make it
longer, so it comes out as it went in exactly when nothing in it is read as markup
(`decode_takeWhile_eq_iff`, `decode_value_eq_iff`).
-/
namespace Markup

/-! ## Text up to a delimiter -/

theorem takeWhile_append_delimiter {α : Type} [DecidableEq α] (d : α) (w rest : List α) :
    (w ++ d :: rest).takeWhile (· ≠ d) = w.takeWhile (· ≠ d) := by
  induction w with
  | nil => simp
  | cons a w ih =>
    by_cases ha : a = d
    · simp [ha]
    · have hp : decide (a ≠ d) = true := decide_eq_true ha
      simp only [List.cons_append, List.takeWhile_cons, hp, if_true, ih]

theorem length_takeWhile_lt {α : Type} {p : α → Bool} {w : List α} {a : α} (ha : a ∈ w) (hp : p a = false) :
    (w.takeWhile p).length < w.length := by
  induction w with
  | nil => cases ha
  | cons b w ih =>
    rcases List.mem_cons.1 ha with rfl | ha
    · simp [hp]
    · have := ih ha
      by_cases hb : p b = true
      · simp only [List.takeWhile_cons, hb, if_true, List.length_cons]
        omega
      · simp [hb]

theorem takeWhile_eq_self_of_forall {α : Type} {p : α → Bool} {w : List α} (h : ∀ a ∈ w, p a = true) :
    w.takeWhile p = w := List.takeWhile_eq_self_iff.2 h

theorem takeWhile_ne_eq_self {α : Type} [DecidableEq α] {d : α} {w : List α} (hd : d ∉ w) :
    w.takeWhile (· ≠ d) = w := by
  apply takeWhile_eq_self_of_forall
  intro a ha
  simp only [ne_eq, decide_eq_true_eq]
  rintro rfl
  exact hd ha

/-! ## Chunks -/

def delimiter (inTag : Bool) : Char := if inTag then '>' else '<'

/-- The pieces between the delimiters, which alternate; the first piece is tag or text as `inTag` says. -/
def chunks : Bool → List Char → List (List Char)
  | _, [] => [[]]
  | inTag, c :: cs =>
    if c = delimiter inTag then [] :: chunks (!inTag) cs else (chunks inTag cs).modifyHead (c :: ·)

theorem chunks_eq_cons (inTag : Bool) (cs : List Char) :
    ∃ rest, chunks inTag cs = cs.takeWhile (· ≠ delimiter inTag) :: rest := by
  induction cs with
  | nil => exact ⟨[], rfl⟩
  | cons c cs ih =>
    by_cases hc : c = delimiter inTag
    · exact ⟨chunks (!inTag) cs, by simp [chunks, hc]⟩
    · obtain ⟨rest, hrest⟩ := ih
      exact ⟨rest, by simp [chunks, hc, hrest]⟩

/-- A string that goes on with a delimiter is cut at its first one. -/
theorem chunks_cut (inTag : Bool) (w rest : List Char) :
    ∃ l, chunks inTag (w ++ delimiter inTag :: rest) = w.takeWhile (· ≠ delimiter inTag) :: l := by
  obtain ⟨l, hl⟩ := chunks_eq_cons inTag (w ++ delimiter inTag :: rest)
  rw [takeWhile_append_delimiter] at hl
  exact ⟨l, hl⟩

/-- A piece without its delimiter is one chunk. -/
theorem chunks_of_not_mem {inTag : Bool} {w : List Char} (hw : delimiter inTag ∉ w) : chunks inTag w = [w] := by
  induction w with
  | nil => rfl
  | cons c w ih =>
    simp only [List.mem_cons, not_or] at hw
    simp [chunks, Ne.symm hw.1, ih hw.2]

/-- The chunks of a text that goes on: its last one goes on too. -/
theorem chunks_append {inTag : Bool} {w last : List Char} {init : List (List Char)}
    (h : chunks inTag w = init ++ [last]) (cs : List Char) :
    chunks inTag (w ++ cs) = init ++ (chunks (not^[init.length] inTag) cs).modifyHead (last ++ ·) := by
  induction w generalizing inTag init last with
  | nil =>
    cases init with
    | nil =>
      obtain rfl := (List.cons.inj h).1
      obtain ⟨rest, hrest⟩ := chunks_eq_cons inTag cs
      simp [hrest]
    | cons i init => simp [chunks] at h
  | cons c w ih =>
    by_cases hc : c = delimiter inTag
    · cases init with
      | nil =>
        obtain ⟨rest, hrest⟩ := chunks_eq_cons (!inTag) w
        simp [chunks, hc, hrest] at h
      | cons i init =>
        simp only [chunks, hc, if_true, List.cons_append, List.cons.injEq] at h
        rw [List.cons_append, chunks, if_pos hc, ih h.2, ← h.1]
        rfl
    · obtain ⟨rest, hrest⟩ := chunks_eq_cons inTag w
      rw [chunks, if_neg hc, hrest, List.modifyHead_cons] at h
      rw [List.cons_append, chunks, if_neg hc]
      cases init with
      | nil =>
        obtain ⟨rfl, rfl⟩ := List.cons.inj h
        have hw : chunks inTag w = [] ++ [w.takeWhile (· ≠ delimiter inTag)] := hrest
        obtain ⟨tail, htail⟩ := chunks_eq_cons inTag cs
        rw [ih hw]
        simp [htail]
      | cons i init =>
        obtain ⟨rfl, hinit⟩ := List.cons.inj h
        have hw : chunks inTag w = (w.takeWhile (· ≠ delimiter inTag) :: init) ++ [last] := by
          rw [hrest, hinit]
          rfl
        rw [ih hw]
        rfl

/-- A piece without its delimiter goes on into the first chunk of what follows. -/
theorem chunks_append_of_not_mem {inTag : Bool} {w : List Char} (hw : delimiter inTag ∉ w) (cs : List Char) :
    chunks inTag (w ++ cs) = (chunks inTag cs).modifyHead (w ++ ·) := by
  have hchunk : chunks inTag w = [] ++ [w] := chunks_of_not_mem hw
  exact chunks_append hchunk cs

/-- After a delimiter a new chunk begins. -/
theorem chunks_append_nil {inTag : Bool} {w : List Char} {init : List (List Char)}
    (h : chunks inTag w = init ++ [[]]) (cs : List Char) :
    chunks inTag (w ++ cs) = init ++ chunks (not^[init.length] inTag) cs := by
  obtain ⟨rest, hrest⟩ := chunks_eq_cons (not^[init.length] inTag) cs
  rw [chunks_append h, hrest]
  rfl

/-- The texts and the tags of alternating chunks. -/
def evens {α : Type} : List α → List α
  | [] => []
  | [a] => [a]
  | a :: _ :: l => a :: evens l

def odds {α : Type} (l : List α) : List α := evens l.tail

@[simp] theorem evens_cons_cons {α : Type} (a b : α) (l : List α) : evens (a :: b :: l) = a :: evens l := rfl

@[simp] theorem odds_cons_cons {α : Type} (a b : α) (l : List α) : odds (a :: b :: l) = b :: odds l := by
  cases l <;> rfl

theorem evens_cons {α : Type} (a : α) (l : List α) : evens (a :: l) = a :: odds l := by
  cases l <;> rfl

/-! ## Entity escapes -/

section Entities
variable (entity : List Char → Option Char)

/-- What an `&` before `cs` stands for, with the length of the rest of its escape. -/
def escape (cs : List Char) : Option (Char × Nat) :=
  if ';' ∈ cs then (entity (cs.takeWhile (· ≠ ';'))).map fun c => (c, (cs.takeWhile (· ≠ ';')).length + 1)
  else none

/-- Decodes `cs` after its first `skip` characters. -/
def decodeFrom : Nat → List Char → List Char
  | _, [] => []
  | skip + 1, _ :: cs => decodeFrom skip cs
  | 0, c :: cs =>
    if c = '&' then
      match escape entity cs with
      | some (d, n) => d :: decodeFrom n cs
      | none => c :: decodeFrom 0 cs
    else c :: decodeFrom 0 cs

def decode (cs : List Char) : List Char := decodeFrom entity 0 cs

/-- No `&` begins an escape. -/
def NoEscapes : List Char → Prop
  | [] => True
  | c :: cs => (c = '&' → escape entity cs = none) ∧ NoEscapes cs

instance decidableNoEscapes : ∀ cs, Decidable (NoEscapes entity cs)
  | [] => isTrue trivial
  | c :: cs =>
    match decidableNoEscapes cs with
    | isTrue h =>
      if hc : c = '&' ∧ (escape entity cs).isSome then
        isFalse fun hn => by
          have := hn.1 hc.1
          simp [this] at hc
      else isTrue ⟨fun h' => by
        rw [← Option.not_isSome_iff_eq_none]
        exact fun hs => hc ⟨h', hs⟩, h⟩
    | isFalse h => isFalse fun hn => h hn.2

theorem length_decodeFrom_le : ∀ (skip : Nat) (cs : List Char),
    (decodeFrom entity skip cs).length ≤ cs.length - skip
  | _, [] => by simp [decodeFrom]
  | skip + 1, _ :: cs => by
    have := length_decodeFrom_le skip cs
    simp only [decodeFrom, List.length_cons]
    omega
  | 0, c :: cs => by
    have hplain := length_decodeFrom_le 0 cs
    simp only [decodeFrom]
    split
    · split
      · rename_i d n _
        have := length_decodeFrom_le n cs
        simp only [List.length_cons]
        omega
      · simpa using hplain
    · simpa using hplain

theorem length_decode_le (cs : List Char) : (decode entity cs).length ≤ cs.length := length_decodeFrom_le entity 0 cs

theorem escape_length_pos {cs : List Char} {d : Char} {n : Nat} (h : escape entity cs = some (d, n)) : 0 < n := by
  simp only [escape, Option.ite_none_right_eq_some, Option.map_eq_some_iff, Prod.mk.injEq] at h
  obtain ⟨_, _, _, _, hn⟩ := h
  omega

/-- Decoding changes nothing exactly when there is nothing to decode. -/
theorem decode_eq_self_iff {cs : List Char} : decode entity cs = cs ↔ NoEscapes entity cs := by
  induction cs with
  | nil => exact iff_of_true rfl trivial
  | cons c cs ih =>
    rw [decode, decodeFrom, NoEscapes]
    by_cases hc : c = '&'
    · rw [if_pos hc]
      cases hesc : escape entity cs with
      | none => simpa [hc, decode] using ih
      | some e =>
        obtain ⟨d, n⟩ := e
        refine iff_of_false ?_ (by simp [hc])
        -- an escape is longer than what it stands for
        intro heq
        have hlen := congrArg List.length heq
        have hle := length_decodeFrom_le entity n cs
        have hpos := escape_length_pos entity hesc
        have hcs : 0 < cs.length := by
          simp only [escape, Option.ite_none_right_eq_some] at hesc
          exact List.length_pos_of_mem hesc.1
        simp only [List.length_cons] at hlen
        omega
    · rw [if_neg hc]
      simpa [hc, decode] using ih

/-- **Text between tags** is read back exactly when it holds no delimiter and no escape. -/
theorem decode_takeWhile_eq_iff {d : Char} {w : List Char} :
    decode entity (w.takeWhile (· ≠ d)) = w ↔ d ∉ w ∧ NoEscapes entity w := by
  by_cases hd : d ∈ w
  · refine iff_of_false ?_ (fun h => h.1 hd)
    intro heq
    have hlt := length_takeWhile_lt (p := (· ≠ d)) hd (by simp)
    have hle := length_decode_le entity (w.takeWhile (· ≠ d))
    rw [heq] at hle
    omega
  · rw [takeWhile_ne_eq_self hd, decode_eq_self_iff]
    exact ⟨fun h => ⟨hd, h⟩, And.right⟩

end Entities

/-! ## Tags -/

section Tags
variable (isSpace : Char → Bool)

/-- `"` and `'` -/
def quotes : List Char := [Char.ofNat 0x22, Char.ofNat 0x27]

/-- The value that begins here, and what follows it. -/
def value : List Char → List Char × List Char
  | [] => ([], [])
  | c :: cs =>
    if c ∈ quotes then (cs.takeWhile (· ≠ c), (cs.dropWhile (· ≠ c)).tail)
    else ((c :: cs).takeWhile (!isSpace ·), (c :: cs).dropWhile (!isSpace ·))

def nameChar (c : Char) : Bool := c ≠ '=' && !isSpace c

/-- The attributes of a tag. Each turn takes at least a character, so that their number is turns enough. -/
def attributesFrom : Nat → List Char → List (List Char × List Char)
  | 0, _ => []
  | n + 1, cs =>
    match cs.dropWhile isSpace with
    | [] => []
    | c :: cs =>
      let name := (c :: cs).takeWhile (nameChar isSpace)
      match (c :: cs).dropWhile (nameChar isSpace) with
      | '=' :: rest => (name, (value isSpace rest).1) :: attributesFrom n (value isSpace rest).2
      | rest => (name, []) :: attributesFrom n rest

def tagName (tag : List Char) : List Char := tag.takeWhile (!isSpace ·)

def attributes (tag : List Char) : List (List Char × List Char) :=
  attributesFrom isSpace tag.length (tag.dropWhile (!isSpace ·))

/-- A value that is neither quoted nor ended early. -/
def Bare (v : List Char) : Prop := (∀ c ∈ v, isSpace c = false) ∧ ∀ c ∈ v.head?, c ∉ quotes

theorem length_value_le (v : List Char) : (value isSpace v).1.length ≤ v.length := by
  cases v with
  | nil => exact Nat.le_refl 0
  | cons c cs =>
    rw [value]
    split
    · have := (List.takeWhile_sublist (l := cs) (· ≠ c)).length_le
      simp only [List.length_cons]
      omega
    · exact (List.takeWhile_sublist _).length_le

theorem length_value_lt {v : List Char} (h : ¬ Bare isSpace v) : (value isSpace v).1.length < v.length := by
  cases v with
  | nil => exact absurd ⟨by simp, by simp⟩ h
  | cons c cs =>
    rw [value]
    by_cases hc : c ∈ quotes
    · rw [if_pos hc]
      have := (List.takeWhile_sublist (l := cs) (· ≠ c)).length_le
      simp only [List.length_cons]
      omega
    · rw [if_neg hc]
      obtain ⟨a, ha, hspace⟩ : ∃ a ∈ c :: cs, isSpace a = true := by
        by_contra hnone
        refine h ⟨fun a ha => ?_, by simpa using hc⟩
        rw [Bool.eq_false_iff]
        exact fun hs => hnone ⟨a, ha, hs⟩
      exact length_takeWhile_lt ha (by simp [hspace])

theorem value_of_bare {v : List Char} (h : Bare isSpace v) : (value isSpace v).1 = v := by
  cases v with
  | nil => rfl
  | cons c cs =>
    have hc : c ∉ quotes := h.2 c rfl
    rw [value, if_neg hc]
    apply takeWhile_eq_self_of_forall
    intro a ha
    simp [h.1 a ha]

/-- **An unquoted value** is read back exactly when it is bare and holds no escape. -/
theorem decode_value_eq_iff (entity : List Char → Option Char) {v : List Char} :
    decode entity (value isSpace v).1 = v ↔ Bare isSpace v ∧ NoEscapes entity v := by
  by_cases hv : Bare isSpace v
  · rw [value_of_bare isSpace hv, decode_eq_self_iff]
    exact ⟨fun h => ⟨hv, h⟩, And.right⟩
  · refine iff_of_false ?_ (fun h => hv h.1)
    intro heq
    have hlt := length_value_lt isSpace hv
    have hle := length_decode_le entity (value isSpace v).1
    rw [heq] at hle
    omega

/-- **A value that markup follows** is read back exactly when it does not hold the delimiter either. -/
theorem decode_value_takeWhile_eq_iff (entity : List Char → Option Char) {d : Char} {v : List Char} :
    decode entity (value isSpace (v.takeWhile (· ≠ d))).1 = v ↔
      d ∉ v ∧ Bare isSpace v ∧ NoEscapes entity v := by
  by_cases hd : d ∈ v
  · refine iff_of_false ?_ (fun h => h.1 hd)
    intro heq
    have hlt := length_takeWhile_lt (p := (· ≠ d)) hd (by simp)
    have hvalue := length_value_le isSpace (v.takeWhile (· ≠ d))
    have hle := length_decode_le entity (value isSpace (v.takeWhile (· ≠ d))).1
    rw [heq] at hle
    omega
  · rw [takeWhile_ne_eq_self hd, decode_value_eq_iff]
    exact ⟨fun h => ⟨hd, h⟩, And.right⟩

end Tags

/-! ## What a reader sees -/

section View
variable (isSpace : Char → Bool) (entity : List Char → Option Char)

def tags (cs : List Char) : List (List Char) := odds (chunks false cs)

def texts (cs : List Char) : List (List Char) := (evens (chunks false cs)).map (decode entity)

/-- Where a tag leads, if it is a link. -/
def linkTarget (tag : List Char) : Option (List Char) :=
  if tagName isSpace tag = "a".toList then
    ((attributes isSpace tag).lookup "href".toList).map (decode entity)
  else none

def links (cs : List Char) : List (List Char) := (tags cs).filterMap (linkTarget isSpace entity)

end View

end Markup
