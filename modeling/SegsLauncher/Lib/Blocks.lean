import Mathlib.Data.List.Induction
/-!
# Blocks between balanced delimiters

A block begins with an opening delimiter and ends with the closing one that balances it. Delimiters in
a quoted string do not count, and in a string an escape takes the next symbol's meaning away. A scan
cuts a word at the end of each block. What stands between the delimiters of a block is built up from
words that leave a scan where it was (`Neutral`): symbols that mean nothing to it, strings, and blocks.
-/
namespace Framing

structure Delimiters (α : Type) where
  opening : α
  closing : α
  quote : α
  escape : α
  isSpace : α → Bool
  nodup : [opening, closing, quote, escape].Nodup
  visible : ∀ a ∈ [opening, closing, quote, escape], isSpace a = false

/-- Where a scan stands: how deep, and, inside a string, whether the last symbol was an escape. -/
structure State where
  depth : Int := 0
  string : Option Bool := none
deriving DecidableEq, Repr

/-- A scan: the symbols since the last whole block, and the whole blocks. -/
@[ext] structure Scanner (α : Type) where
  piece : List α := []
  blocks : List (List α) := []
deriving DecidableEq, Repr

namespace Delimiters

variable {α : Type}

theorem ne_of_isSpace {d : Delimiters α} {a b : α} (ha : d.isSpace a = true)
    (hb : b ∈ [d.opening, d.closing, d.quote, d.escape]) : a ≠ b := by
  rintro rfl
  simp [d.visible a hb] at ha

theorem opening_ne_closing (d : Delimiters α) : d.opening ≠ d.closing := by
  have := d.nodup
  simp_all

theorem opening_ne_quote (d : Delimiters α) : d.opening ≠ d.quote := by
  have := d.nodup
  simp_all

theorem closing_ne_quote (d : Delimiters α) : d.closing ≠ d.quote := by
  have := d.nodup
  simp_all

theorem escape_ne_quote (d : Delimiters α) : d.escape ≠ d.quote := by
  have := d.nodup
  simp_all [eq_comm]

variable [DecidableEq α] (d : Delimiters α)

def next (s : State) (a : α) : State :=
  match s.string with
  | none =>
    if a = d.quote then { s with string := some false }
    else if a = d.opening then { s with depth := s.depth + 1 }
    else if a = d.closing then { s with depth := s.depth - 1 }
    else s
  | some true => { s with string := some false }
  | some false =>
    if a = d.quote then { s with string := none }
    else { s with string := some (a = d.escape) }

def run (s : State) (w : List α) : State := w.foldl d.next s

/-- The symbol ends a block. -/
def closes (s : State) (a : α) : Bool := s.string = none ∧ s.depth = 1 ∧ a = d.closing

def feed (c : Scanner α) (a : α) : Scanner α :=
  if d.closes (d.run {} c.piece) a then ⟨[], c.blocks ++ [c.piece ++ [a]]⟩ else ⟨c.piece ++ [a], c.blocks⟩

def feeds (c : Scanner α) (w : List α) : Scanner α := w.foldl d.feed c

def scan (w : List α) : Scanner α := d.feeds {} w

/-- No white space follows an escape. -/
def PlainFrom (s : State) : List α → Prop
  | [] => True
  | a :: w => (d.isSpace a = true → s.string ≠ some true) ∧ PlainFrom (d.next s a) w

/-- A block a sender may send. -/
structure Block (f : List α) : Prop where
  scan : d.scan f = ⟨[], [f]⟩
  head : f.head? = some d.opening
  plain : d.PlainFrom {} f

variable {d}

/-! ## White space -/

/-- White space moves a scan only where it is escaped. -/
theorem next_space {s : State} {a : α} (ha : d.isSpace a = true) (hs : s.string ≠ some true) : d.next s a = s := by
  have hquote : a ≠ d.quote := ne_of_isSpace ha (by simp)
  obtain ⟨n, _ | _ | _⟩ := s
  · simp [next, hquote, ne_of_isSpace ha (b := d.opening), ne_of_isSpace ha (b := d.closing)]
  · simp [next, hquote, ne_of_isSpace ha (b := d.escape)]
  · exact absurd rfl hs

theorem closes_space {s : State} {a : α} (ha : d.isSpace a = true) : d.closes s a = false := by
  simp [closes, ne_of_isSpace ha (b := d.closing)]

theorem run_append (s : State) (u v : List α) : d.run s (u ++ v) = d.run (d.run s u) v := List.foldl_append

theorem run_snoc (s : State) (u : List α) (a : α) : d.run s (u ++ [a]) = d.next (d.run s u) a := run_append s u [a]

theorem run_spaces {s : State} {w : List α} (hw : ∀ a ∈ w, d.isSpace a = true) (hs : s.string ≠ some true) :
    d.run s w = s := by
  induction w with
  | nil => rfl
  | cons a w ih =>
    show d.run (d.next s a) w = s
    rw [next_space (hw a (by simp)) hs]
    exact ih fun b hb => hw b (by simp [hb])

/-- A block ends where the scan began. -/
theorem next_of_closes {s : State} {a : α} (h : d.closes s a = true) : d.next s a = {} := by
  obtain ⟨hstr, hdep, rfl⟩ : s.string = none ∧ s.depth = 1 ∧ a = d.closing := by simpa [closes] using h
  obtain ⟨s1, s2⟩ := s
  subst hstr
  subst hdep
  simp [next, d.closing_ne_quote, d.opening_ne_closing.symm]

theorem plainFrom_append (s : State) (u v : List α) :
    d.PlainFrom s (u ++ v) ↔ d.PlainFrom s u ∧ d.PlainFrom (d.run s u) v := by
  induction u generalizing s with
  | nil => simp [PlainFrom, run]
  | cons a u ih =>
    simp only [List.cons_append, PlainFrom, ih, and_assoc]
    rfl

/-! ## The scan -/

theorem feeds_append (c : Scanner α) (u v : List α) : d.feeds c (u ++ v) = d.feeds (d.feeds c u) v :=
  List.foldl_append

theorem scan_append (u v : List α) : d.scan (u ++ v) = d.feeds (d.scan u) v := feeds_append {} u v

/-- The blocks found before do not matter to what follows. -/
theorem feeds_blocks (p : List α) (bs cs : List (List α)) (w : List α) :
    d.feeds ⟨p, bs ++ cs⟩ w = ⟨(d.feeds ⟨p, cs⟩ w).piece, bs ++ (d.feeds ⟨p, cs⟩ w).blocks⟩ := by
  induction w generalizing p cs with
  | nil => rfl
  | cons a w ih =>
    show d.feeds (d.feed ⟨p, bs ++ cs⟩ a) w = _
    have hcons : d.feeds ⟨p, cs⟩ (a :: w) = d.feeds (d.feed ⟨p, cs⟩ a) w := rfl
    rw [hcons]
    by_cases h : d.closes (d.run {} p) a = true
    · simp only [feed, h, if_true, List.append_assoc]
      exact ih [] (cs ++ [p ++ [a]])
    · simp only [feed, h, if_false, Bool.false_eq_true]
      exact ih (p ++ [a]) cs

theorem feeds_eq (p : List α) (bs : List (List α)) (w : List α) :
    d.feeds ⟨p, bs⟩ w = ⟨(d.feeds ⟨p, []⟩ w).piece, bs ++ (d.feeds ⟨p, []⟩ w).blocks⟩ := by
  simpa using feeds_blocks (d := d) p bs [] w

/-- A scan finds no block in what it keeps. -/
theorem scan_piece (w : List α) : d.scan (d.scan w).piece = ⟨(d.scan w).piece, []⟩ := by
  induction w using List.reverseRecOn with
  | nil => rfl
  | append_singleton w a ih =>
    have hs : d.scan (w ++ [a]) = d.feed (d.scan w) a := scan_append w [a]
    rw [hs]
    by_cases h : d.closes (d.run {} (d.scan w).piece) a = true
    · simp only [feed, h, if_true]
      rfl
    · simp only [feed, h, if_false, Bool.false_eq_true]
      rw [scan_append, ih]
      show d.feed _ a = _
      simp only [feed, h, if_false, Bool.false_eq_true]

/-- The kept symbols leave a scan where the whole word does. -/
theorem run_piece (w : List α) : d.run {} (d.scan w).piece = d.run {} w := by
  induction w using List.reverseRecOn with
  | nil => rfl
  | append_singleton w a ih =>
    have hs : d.scan (w ++ [a]) = d.feed (d.scan w) a := scan_append w [a]
    rw [hs, run_snoc, ← ih]
    by_cases h : d.closes (d.run {} (d.scan w).piece) a = true
    · simp only [feed, h, if_true, next_of_closes h]
      rfl
    · simp only [feed, h, if_false, Bool.false_eq_true]
      exact run_snoc _ _ a

theorem plain_piece {w : List α} (h : d.PlainFrom {} w) : d.PlainFrom {} (d.scan w).piece := by
  induction w using List.reverseRecOn with
  | nil => trivial
  | append_singleton w a ih =>
    obtain ⟨hw, ha⟩ := (plainFrom_append {} w [a]).1 h
    have hs : d.scan (w ++ [a]) = d.feed (d.scan w) a := scan_append w [a]
    rw [hs]
    by_cases hc : d.closes (d.run {} (d.scan w).piece) a = true
    · simp only [feed, hc, if_true]
      trivial
    · simp only [feed, hc, if_false, Bool.false_eq_true]
      rw [plainFrom_append, run_piece]
      exact ⟨ih hw, ha⟩

/-- The blocks and what is kept make up the word. -/
theorem flatten_scan (w : List α) : (d.scan w).blocks.flatten ++ (d.scan w).piece = w := by
  induction w using List.reverseRecOn with
  | nil => rfl
  | append_singleton w a ih =>
    have hs : d.scan (w ++ [a]) = d.feed (d.scan w) a := scan_append w [a]
    rw [hs]
    by_cases hc : d.closes (d.run {} (d.scan w).piece) a = true
    · simp only [feed, hc, if_true, List.flatten_append, List.flatten_singleton, List.append_nil]
      rw [← List.append_assoc, ih]
    · simp only [feed, hc, if_false, Bool.false_eq_true]
      rw [← List.append_assoc, ih]

theorem scan_spaces {s : List α} (hs : ∀ a ∈ s, d.isSpace a = true) : d.scan s = ⟨s, []⟩ := by
  induction s using List.reverseRecOn with
  | nil => rfl
  | append_singleton w a ih =>
    rw [scan_append, ih fun b hb => hs b (by simp [hb])]
    show d.feed _ a = _
    simp [feed, closes_space (hs a (by simp))]

/-! ## What stands inside a block -/

/-- The word takes a scan from `s` to `t`, and no block ends in it. -/
structure Quiet (d : Delimiters α) (s : State) (w : List α) (t : State) : Prop where
  run : d.run s w = t
  unfinished : ∀ p bs, d.run {} p = s → d.feeds ⟨p, bs⟩ w = ⟨p ++ w, bs⟩
  plain : d.PlainFrom s w

theorem Quiet.nil (s : State) : Quiet d s [] s := ⟨rfl, fun p bs _ => by simp [feeds], trivial⟩

theorem Quiet.single {s : State} {a : α} (hc : d.closes s a = false) (ha : d.isSpace a = true → s.string ≠ some true) :
    Quiet d s [a] (d.next s a) where
  run := rfl
  unfinished := by
    rintro p bs rfl
    show d.feed ⟨p, bs⟩ a = _
    simp [feed, hc]
  plain := ⟨ha, trivial⟩

theorem Quiet.append {s t r : State} {u v : List α} (h : Quiet d s u t) (h' : Quiet d t v r) :
    Quiet d s (u ++ v) r where
  run := by rw [run_append, h.run, h'.run]
  unfinished := by
    intro p bs hp
    rw [feeds_append, h.unfinished p bs hp, h'.unfinished (p ++ u) bs (by rw [run_append, hp, h.run]), List.append_assoc]
  plain := (plainFrom_append s u v).2 ⟨h.plain, by rw [h.run]; exact h'.plain⟩

/-- Inside a block, at whatever depth, the word leaves a scan where it was. -/
def Neutral (d : Delimiters α) (w : List α) : Prop := ∀ n : Int, 1 ≤ n → Quiet d ⟨n, none⟩ w ⟨n, none⟩

/-- The same inside a string. -/
def Literal (d : Delimiters α) (w : List α) : Prop := ∀ n : Int, Quiet d ⟨n, some false⟩ w ⟨n, some false⟩

theorem Neutral.nil : Neutral d [] := fun _ _ => .nil _

theorem Neutral.append {u v : List α} (hu : Neutral d u) (hv : Neutral d v) : Neutral d (u ++ v) :=
  fun n hn => (hu n hn).append (hv n hn)

/-- Symbols that are no delimiter. -/
theorem Neutral.of_forall {w : List α} (hw : ∀ a ∈ w, a ∉ [d.opening, d.closing, d.quote]) : Neutral d w := by
  induction w with
  | nil => exact .nil
  | cons a w ih =>
    have ha := hw a (by simp)
    simp only [List.mem_cons, List.not_mem_nil, or_false, not_or] at ha
    refine .append (u := [a]) (fun n _ => ?_) (ih fun b hb => hw b (by simp [hb]))
    have hq : Quiet d ⟨n, none⟩ [a] (d.next ⟨n, none⟩ a) := .single (by simp [closes, ha.2.1]) (by simp)
    simpa [next, ha.1, ha.2.1, ha.2.2] using hq

theorem Literal.nil : Literal d [] := fun _ => .nil _

theorem Literal.append {u v : List α} (hu : Literal d u) (hv : Literal d v) : Literal d (u ++ v) :=
  fun n => (hu n).append (hv n)

theorem Literal.single {a : α} (hq : a ≠ d.quote) (he : a ≠ d.escape) : Literal d [a] := by
  intro n
  have h : Quiet d ⟨n, some false⟩ [a] (d.next ⟨n, some false⟩ a) := .single (by simp [closes]) (by simp)
  simpa [next, hq, he] using h

theorem Literal.escaped {a : α} (ha : d.isSpace a = false) : Literal d [d.escape, a] := by
  intro n
  have h₁ : Quiet d ⟨n, some false⟩ [d.escape] (d.next ⟨n, some false⟩ d.escape) := .single (by simp [closes]) (by simp)
  have h₂ : Quiet d ⟨n, some true⟩ [a] (d.next ⟨n, some true⟩ a) := .single (by simp [closes]) (by simp [ha])
  have h₁' : Quiet d ⟨n, some false⟩ [d.escape] ⟨n, some true⟩ := by simpa [next, d.escape_ne_quote] using h₁
  exact h₁'.append h₂

/-- A quoted string. -/
theorem Neutral.quoted {w : List α} (hw : Literal d w) : Neutral d (d.quote :: w ++ [d.quote]) := by
  intro n _
  have hopen : Quiet d ⟨n, none⟩ [d.quote] (d.next ⟨n, none⟩ d.quote) :=
    .single (by simp [closes, d.closing_ne_quote.symm]) (by simp)
  have hclose : Quiet d ⟨n, some false⟩ [d.quote] (d.next ⟨n, some false⟩ d.quote) := .single (by simp [closes]) (by simp)
  have hopen' : Quiet d ⟨n, none⟩ [d.quote] ⟨n, some false⟩ := by simpa [next] using hopen
  have hclose' : Quiet d ⟨n, some false⟩ [d.quote] ⟨n, none⟩ := by simpa [next] using hclose
  exact (hopen'.append (hw n)).append hclose'

theorem quiet_opening (n : Int) : Quiet d ⟨n, none⟩ [d.opening] ⟨n + 1, none⟩ := by
  have h : Quiet d ⟨n, none⟩ [d.opening] (d.next ⟨n, none⟩ d.opening) := .single (by simp [closes, d.opening_ne_closing]) (by simp)
  simpa [next, d.opening_ne_quote] using h

/-- A block inside a block. -/
theorem Neutral.nested {w : List α} (hw : Neutral d w) : Neutral d (d.opening :: w ++ [d.closing]) := by
  intro n hn
  have hclose : Quiet d ⟨n + 1, none⟩ [d.closing] (d.next ⟨n + 1, none⟩ d.closing) :=
    .single (by simp [closes]; omega) (by simp)
  have hclose' : Quiet d ⟨n + 1, none⟩ [d.closing] ⟨n, none⟩ := by
    simpa [next, d.closing_ne_quote, d.opening_ne_closing.symm] using hclose
  exact ((quiet_opening n).append (hw (n + 1) (by omega))).append hclose'

/-- **Neutral words between delimiters make a block.** -/
theorem Neutral.block {w : List α} (hw : Neutral d w) : d.Block (d.opening :: w ++ [d.closing]) := by
  have h : Quiet d {} (d.opening :: w) ⟨1, none⟩ := (quiet_opening 0).append (hw 1 (by omega))
  refine ⟨?_, rfl, (plainFrom_append _ _ _).2 ⟨h.plain, ?_⟩⟩
  · have hscan : d.scan (d.opening :: w) = ⟨d.opening :: w, []⟩ := h.unfinished [] [] rfl
    rw [scan_append, hscan]
    show d.feed _ d.closing = _
    simp [feed, h.run, closes]
  · rw [h.run]
    exact ⟨by simp, trivial⟩

end Delimiters

end Framing
