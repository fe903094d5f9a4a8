import Mathlib.Data.List.DropRight
import Mathlib.Data.List.Forall2
import SegsLauncher.Lib.Blocks
/-!
# Blocks that arrive in packets

A stream of blocks with white space between them arrives in packets. A receiver keeps what is not
yet a whole block, appends each packet to it, *trims the result* and scans it from its start.

Trimming loses white space, harmless between blocks and between the tokens of one, and not in a
string. So the receiver is compared with a scanner that sees the whole stream at once: it always
finds as many blocks, ending at the same symbols (`Near`), and a block is the sender's but for white
space outside strings (`Respaced`) in all cases exactly when no packet ends in white space inside a
string (`respaced_iff_clean`).
-/
namespace Framing

/-- The scan with `s` before the first symbol it has seen. -/
def Scanner.after (s : List α) : Scanner α → Scanner α
  | ⟨p, []⟩ => ⟨s ++ p, []⟩
  | ⟨p, b :: bs⟩ => ⟨p, (s ++ b) :: bs⟩

namespace Delimiters

variable {α : Type} [DecidableEq α] (d : Delimiters α)

/-- The word without its leading white space. -/
def body (w : List α) : List α := w.dropWhile d.isSpace

def trim (w : List α) : List α := (d.body w).rdropWhile d.isSpace

/-- The word without white space outside strings. -/
def compactFrom (s : State) : List α → List α
  | [] => []
  | a :: w => if d.isSpace a ∧ s.string = none then compactFrom (d.next s a) w else a :: compactFrom (d.next s a) w

def compact (w : List α) : List α := d.compactFrom {} w

/-- No white space in strings. -/
def bareFrom (s : State) : List α → Bool
  | [] => true
  | a :: w => (!d.isSpace a || s.string.isNone) && bareFrom (d.next s a) w

/-- One packet: what is kept, and the blocks found. Anything that does not start with the opening
delimiter is dropped. -/
def receive (buf packet : List α) : Scanner α :=
  let w := d.trim (buf ++ packet)
  if w.head? = some d.opening then d.scan w else {}

def receiveNext (c : Scanner α) (packet : List α) : Scanner α :=
  let r := d.receive c.piece packet
  ⟨r.piece, c.blocks ++ r.blocks⟩

/-- The packets one after another. -/
def receiveAll (packets : List (List α)) : Scanner α := packets.foldl d.receiveNext {}

/-- The word does not end in white space inside a string. -/
def Clean (w : List α) : Prop := (d.run {} w).string ≠ none → ∀ a ∈ w.getLast?, d.isSpace a = false

/-- `b` is the block `q` but for white space outside strings, of which it has none that `q` has not,
leading white space apart. -/
def Respaced (q b : List α) : Prop := (d.body b).Sublist (d.body q) ∧ d.compact b = d.compact q

/-- A stream of blocks that are `P`, with white space around each. -/
inductive Stream (P : List α → Prop) : List (List α) → List α → Prop
  | blank {w : List α} (hw : ∀ a ∈ w, d.isSpace a = true) : Stream P [] w
  | block {s f w : List α} {fs : List (List α)} (hs : ∀ a ∈ s, d.isSpace a = true) (hf : P f)
      (h : Stream P fs w) : Stream P (f :: fs) (s ++ f ++ w)

variable {d}

/-! ## White space -/

theorem compactFrom_append (s : State) (u v : List α) :
    d.compactFrom s (u ++ v) = d.compactFrom s u ++ d.compactFrom (d.run s u) v := by
  induction u generalizing s with
  | nil => rfl
  | cons a u ih =>
    simp only [List.cons_append, compactFrom, ih]
    split
    · rfl
    · rfl

theorem compact_snoc (u : List α) (a : α) :
    d.compact (u ++ [a]) = d.compact u ++ d.compactFrom (d.run {} u) [a] := compactFrom_append {} u [a]

@[simp] theorem compact_nil : d.compact [] = [] := rfl

theorem compact_spaces {w : List α} (hw : ∀ a ∈ w, d.isSpace a = true) : d.compact w = [] := by
  induction w with
  | nil => rfl
  | cons a w ih =>
    have ha := hw a (by simp)
    have hnext : d.next {} a = {} := next_space ha (by simp)
    simp only [compact, compactFrom, ha, hnext, and_self, if_true]
    exact ih fun b hb => hw b (by simp [hb])

/-! ## Scans that differ in white space -/

/-- `b` is `q` with some white space gone: a scan stands at the same place after both. -/
structure Thinned (d : Delimiters α) (q b : List α) : Prop where
  run : d.run {} b = d.run {} q
  head : (d.body b).head? = (d.body q).head?
  sublist : (d.body b).Sublist (d.body q)
  compact : (d.compact b).Sublist (d.compact q)

theorem Thinned.body_eq_nil {q b : List α} (h : Thinned d q b) : d.body b = [] ↔ d.body q = [] := by
  rw [← List.head?_eq_none_iff, h.head, List.head?_eq_none_iff]

theorem Thinned.refl (q : List α) : Thinned d q q := ⟨rfl, rfl, .refl _, .refl _⟩

theorem Thinned.trans {p q b : List α} (h : Thinned d p q) (h' : Thinned d q b) : Thinned d p b where
  run := h'.run.trans h.run
  head := h'.head.trans h.head
  sublist := h'.sublist.trans h.sublist
  compact := h'.compact.trans h.compact

omit [DecidableEq α] in
theorem body_append (u v : List α) : d.body (u ++ v) = if d.body u = [] then d.body v else d.body u ++ v := by
  simp [body, List.dropWhile_append, List.isEmpty_iff]

/-- The same symbol after both. -/
theorem Thinned.snoc {q b : List α} (h : Thinned d q b) (a : α) : Thinned d (q ++ [a]) (b ++ [a]) where
  run := by rw [run_snoc, run_snoc, h.run]
  head := by
    by_cases hq : d.body q = []
    · rw [body_append, body_append, if_pos hq, if_pos (h.body_eq_nil.2 hq)]
    · have hb := fun e => hq (h.body_eq_nil.1 e)
      rw [body_append, body_append, if_neg hq, if_neg hb, List.head?_append_of_ne_nil _ hb,
        List.head?_append_of_ne_nil _ hq, h.head]
  sublist := by
    by_cases hq : d.body q = []
    · rw [body_append, body_append, if_pos hq, if_pos (h.body_eq_nil.2 hq)]
    · rw [body_append, body_append, if_neg hq, if_neg fun e => hq (h.body_eq_nil.1 e)]
      exact h.sublist.append (.refl _)
  compact := by
    rw [compact_snoc, compact_snoc, h.run]
    exact h.compact.append (.refl _)

/-- White space at the end of one, where it is not escaped. -/
theorem Thinned.space {q : List α} {a : α} (ha : d.isSpace a = true) (hs : (d.run {} q).string ≠ some true) :
    Thinned d (q ++ [a]) q where
  run := by rw [run_snoc, next_space ha hs]
  head := by
    by_cases hq : d.body q = []
    · rw [body_append, if_pos hq, hq]
      simp [body, ha]
    · rw [body_append, if_neg hq, List.head?_append_of_ne_nil _ hq]
  sublist := by
    by_cases hq : d.body q = []
    · rw [hq]
      exact List.nil_sublist _
    · rw [body_append, if_neg hq]
      exact List.sublist_append_left _ _
  compact := by
    rw [compact_snoc]
    exact List.sublist_append_left _ _

omit [DecidableEq α] in
/-- White space before both. -/
theorem body_spaces {s : List α} (hs : ∀ a ∈ s, d.isSpace a = true) (w : List α) : d.body (s ++ w) = d.body w := by
  rw [body, List.dropWhile_append_of_pos hs]
  rfl

theorem compact_append_spaces {s : List α} (hs : ∀ a ∈ s, d.isSpace a = true) (w : List α) :
    d.compact (s ++ w) = d.compact w := by
  show d.compactFrom {} (s ++ w) = _
  rw [compactFrom_append, run_spaces hs (by simp)]
  have hnil : d.compactFrom {} s = [] := compact_spaces hs
  rw [hnil]
  rfl

theorem thinned_spaces {s : List α} (hs : ∀ a ∈ s, d.isSpace a = true) (w : List α) : Thinned d w (s ++ w) where
  run := by rw [run_append, run_spaces hs (by simp)]
  head := by rw [body_spaces hs]
  sublist := by rw [body_spaces hs]
  compact := by rw [compact_append_spaces hs]

theorem spaces_thinned {s : List α} (hs : ∀ a ∈ s, d.isSpace a = true) (w : List α) : Thinned d (s ++ w) w where
  run := by rw [run_append, run_spaces hs (by simp)]
  head := by rw [body_spaces hs]
  sublist := by rw [body_spaces hs]
  compact := by rw [compact_append_spaces hs]

/-- The two scans have found as many blocks, each of `e`'s thinned from that of `c`. -/
structure Near (d : Delimiters α) (c e : Scanner α) : Prop where
  piece : Thinned d c.piece e.piece
  blocks : List.Forall₂ (Thinned d) c.blocks e.blocks

/-- How many symbols of a scan are not white space outside strings. -/
def weight (d : Delimiters α) (c : Scanner α) : Nat :=
  (c.blocks.flatMap d.compact).length + (d.compact c.piece).length

theorem Near.refl (c : Scanner α) : Near d c c := ⟨.refl _, List.forall₂_same.2 fun b _ => .refl b⟩

theorem forall₂_trans {xs ys zs : List (List α)} (h : List.Forall₂ (Thinned d) xs ys)
    (h' : List.Forall₂ (Thinned d) ys zs) : List.Forall₂ (Thinned d) xs zs := by
  induction h generalizing zs with
  | nil => exact h'
  | cons hxy _ ih =>
    cases h' with
    | cons hyz h' => exact .cons (hxy.trans hyz) (ih h')

theorem Near.trans {c e g : Scanner α} (h : Near d c e) (h' : Near d e g) : Near d c g :=
  ⟨h.piece.trans h'.piece, forall₂_trans h.blocks h'.blocks⟩

/-- What one more symbol adds to the weight depends on where the scan stands only. -/
theorem weight_feed (c : Scanner α) (a : α) :
    d.weight (d.feed c a) = d.weight c + (d.compactFrom (d.run {} c.piece) [a]).length := by
  have hsnoc := congrArg List.length (d.compact_snoc c.piece a)
  rw [List.length_append] at hsnoc
  by_cases h : d.closes (d.run {} c.piece) a = true
  · simp only [weight, feed, h, if_true, List.flatMap_append, List.length_append, List.flatMap_cons, List.flatMap_nil,
      compact_nil, List.length_nil]
    omega
  · simp only [weight, feed, h, if_false, Bool.false_eq_true]
    omega

theorem Near.feed {c e : Scanner α} (h : Near d c e) (a : α) : Near d (d.feed c a) (d.feed e a) := by
  by_cases hc : d.closes (d.run {} c.piece) a = true
  · have he : d.closes (d.run {} e.piece) a = true := by rw [h.piece.run, hc]
    simp only [Delimiters.feed, hc, he, if_true]
    exact ⟨.refl [], List.rel_append h.blocks (.cons (h.piece.snoc a) .nil)⟩
  · have he : ¬ d.closes (d.run {} e.piece) a = true := by rwa [h.piece.run]
    simp only [Delimiters.feed, hc, he, if_false, Bool.false_eq_true]
    exact ⟨h.piece.snoc a, h.blocks⟩

/-- **Two near scans stay near, and the weight one is short of the other does not change.** -/
theorem Near.feeds {c e : Scanner α} (h : Near d c e) (w : List α) :
    Near d (d.feeds c w) (d.feeds e w) ∧ d.weight (d.feeds c w) + d.weight e = d.weight (d.feeds e w) + d.weight c := by
  induction w generalizing c e with
  | nil => exact ⟨h, Nat.add_comm _ _⟩
  | cons a w ih =>
    obtain ⟨hn, hw⟩ := ih (h.feed a)
    refine ⟨hn, ?_⟩
    have hc := d.weight_feed c a
    have he := d.weight_feed e a
    rw [h.piece.run] at he
    show d.weight (d.feeds (d.feed c a) w) + _ = d.weight (d.feeds (d.feed e a) w) + _
    omega

/-- White space at the end of a scan, where it is not escaped, is in the weight inside a string only. -/
theorem feeds_spaces (c : Scanner α) {t : List α} (ht : ∀ a ∈ t, d.isSpace a = true)
    (hs : t ≠ [] → (d.run {} c.piece).string ≠ some true) :
    Near d (d.feeds c t) c ∧
      d.weight (d.feeds c t) = d.weight c + if (d.run {} c.piece).string = none then 0 else t.length := by
  induction t using List.reverseRecOn with
  | nil => exact ⟨.refl c, by simp [feeds]⟩
  | append_singleton t a ih =>
    have hstr := hs (by simp)
    have ha := ht a (by simp)
    obtain ⟨hn, hw⟩ := ih (fun b hb => ht b (by simp [hb])) fun _ => hstr
    have hsnoc : d.feeds c (t ++ [a]) = d.feed (d.feeds c t) a := feeds_append c t [a]
    have hrun : d.run {} (d.feeds c t).piece = d.run {} c.piece := hn.piece.run.symm
    have hfeed : d.feed (d.feeds c t) a = ⟨(d.feeds c t).piece ++ [a], (d.feeds c t).blocks⟩ := by
      simp [feed, closes_space ha]
    refine ⟨?_, ?_⟩
    · refine .trans ?_ hn
      rw [hsnoc, hfeed]
      exact ⟨.space ha (by rwa [hrun]), List.forall₂_same.2 fun b _ => .refl b⟩
    · rw [hsnoc, weight_feed, hw, hrun]
      by_cases hnone : (d.run {} c.piece).string = none
      · simp [compactFrom, ha, hnone]
      · simp [compactFrom, ha, hnone, Nat.add_assoc]

/-! ## Trimming -/

omit [DecidableEq α] in
/-- A word is what is left of it between white space, its end included only if there is something left. -/
theorem exists_trim (w : List α) : ∃ s t, w = s ++ d.trim w ++ t ∧ (∀ a ∈ s, d.isSpace a = true) ∧
    (∀ a ∈ t, d.isSpace a = true) ∧ ∀ a ∈ (d.trim w).getLast?, d.isSpace a = false := by
  refine ⟨w.takeWhile d.isSpace, (d.body w).rtakeWhile d.isSpace, ?_, ?_, ?_, ?_⟩
  · rw [trim, List.append_assoc, List.rdropWhile_append_rtakeWhile]
    exact List.takeWhile_append_dropWhile.symm
  · exact fun a ha => List.mem_takeWhile_imp ha
  · exact fun a ha => List.mem_rtakeWhile_imp ha
  · intro a ha
    obtain ⟨hne, rfl⟩ := List.mem_getLast?_eq_getLast ha
    have := List.rdropWhile_last_not d.isSpace (d.body w) hne
    rwa [Bool.not_eq_true] at this

omit [DecidableEq α] in
theorem head?_trim (w : List α) : (d.trim w).head? = (d.body w).head? := by
  have hp : d.trim w <+: d.body w := List.rdropWhile_prefix d.isSpace (d.body w)
  obtain ⟨t, ht⟩ := hp
  by_cases hnil : d.trim w = []
  · -- nothing is left of a word that is white space
    have hall : ∀ a ∈ d.body w, d.isSpace a = true := List.rdropWhile_eq_nil_iff.1 hnil
    cases hb : d.body w with
    | nil => rw [hnil]
    | cons a u =>
      have ha : d.isSpace a = false := by
        have := List.head?_dropWhile_not d.isSpace w
        simp only [body] at hb
        simpa [hb] using this
      simp [hall a (by simp [hb])] at ha
  · rw [← ht, List.head?_append_of_ne_nil _ hnil]

/-- **Trimming keeps a scan near, and costs weight just where the word ends in white space inside a
string.** -/
theorem near_trim {w : List α} (hw : d.PlainFrom {} w) :
    Near d (d.scan w) (d.scan (d.trim w)) ∧
      ∃ loss, d.weight (d.scan w) = d.weight (d.scan (d.trim w)) + loss ∧ (loss = 0 ↔ d.Clean w) := by
  obtain ⟨s, t, hst, hs, ht, hlast⟩ := d.exists_trim w
  generalize d.trim w = u at hst hlast
  subst hst
  -- the leading white space goes
  have hlead : Near d (d.scan (s ++ u)) (d.scan u) ∧ d.weight (d.scan (s ++ u)) = d.weight (d.scan u) := by
    have h0 : Near d (d.scan s) {} := by
      rw [scan_spaces hs]
      exact ⟨by simpa using spaces_thinned hs [], .nil⟩
    obtain ⟨hn, hwt⟩ := h0.feeds u
    rw [scan_append]
    refine ⟨hn, ?_⟩
    have hzero : d.weight (d.scan s) = d.weight {} := by
      rw [scan_spaces hs]
      simp [weight, compact_spaces hs]
    have : d.feeds {} u = d.scan u := rfl
    rw [this] at hwt
    omega
  -- then the trailing
  have hrun : d.run {} (d.scan (s ++ u)).piece = d.run {} u := by
    rw [run_piece, run_append, run_spaces hs (by simp)]
  have hesc : t ≠ [] → (d.run {} (d.scan (s ++ u)).piece).string ≠ some true := by
    intro hne
    obtain ⟨a, t', rfl⟩ := List.exists_cons_of_ne_nil hne
    rw [run_piece]
    exact ((plainFrom_append {} (s ++ u) (a :: t')).1 hw).2.1 (ht a (by simp))
  obtain ⟨hn, hwt⟩ := feeds_spaces (d.scan (s ++ u)) ht hesc
  rw [scan_append]
  refine ⟨hn.trans hlead.1, _, by rw [hwt, hlead.2], ?_⟩
  have hrunt : d.run {} (s ++ u ++ t) = d.run {} u := by
    have hr := run_piece (d := d) (s ++ u ++ t)
    rw [← hr, scan_append, ← hn.piece.run, hrun]
  rw [hrun, Clean, hrunt]
  by_cases hnone : (d.run {} u).string = none
  · simp [hnone]
  · by_cases hnil : t = []
    · subst hnil
      have hune : u ≠ [] := by
        rintro rfl
        exact hnone rfl
      simp only [hnone, if_false, List.length_nil, true_iff, List.append_nil]
      intro _
      rwa [List.getLast?_append_of_ne_nil _ hune]
    · have hlen := List.length_pos_of_ne_nil hnil
      simp only [hnone, if_false, not_false_eq_true, true_imp_iff, ne_eq]
      refine ⟨fun h => by omega, fun h => ?_⟩
      have hmem := List.getLast_mem hnil
      have := h (t.getLast hnil) (by rw [List.getLast?_append_of_ne_nil _ hnil, List.getLast?_eq_some_getLast hnil]; rfl)
      simp [ht _ hmem] at this

/-! ## Streams -/

theorem feed_after {s : List α} (hs : ∀ a ∈ s, d.isSpace a = true) (c : Scanner α) (a : α) :
    d.feed (c.after s) a = (d.feed c a).after s := by
  obtain ⟨p, _ | ⟨b, bs⟩⟩ := c
  · have hrun : d.run {} (s ++ p) = d.run {} p := by rw [run_append, run_spaces hs (by simp)]
    by_cases h : d.closes (d.run {} p) a = true
    · simp [Scanner.after, feed, hrun, h]
    · simp [Scanner.after, feed, hrun, h]
  · by_cases h : d.closes (d.run {} p) a = true
    · simp [Scanner.after, feed, h]
    · simp [Scanner.after, feed, h]

theorem scan_spaces_append {s : List α} (hs : ∀ a ∈ s, d.isSpace a = true) (w : List α) :
    d.scan (s ++ w) = (d.scan w).after s := by
  induction w using List.reverseRecOn with
  | nil =>
    rw [List.append_nil, scan_spaces hs]
    show (⟨s, []⟩ : Scanner α) = ⟨s ++ [], []⟩
    rw [List.append_nil]
  | append_singleton w a ih =>
    have hs1 : d.scan (s ++ w ++ [a]) = d.feed (d.scan (s ++ w)) a := scan_append (s ++ w) [a]
    have hs2 : d.scan (w ++ [a]) = d.feed (d.scan w) a := scan_append w [a]
    rw [← List.append_assoc, hs1, hs2, ih, feed_after hs]

/-- A whole block with the white space before it is found as one. -/
theorem Block.scan_append {s f : List α} (hs : ∀ a ∈ s, d.isSpace a = true) (hf : d.Block f) (w : List α) :
    d.scan (s ++ f ++ w) = ⟨(d.scan w).piece, (s ++ f) :: (d.scan w).blocks⟩ := by
  rw [Delimiters.scan_append, scan_spaces_append hs, hf.scan]
  exact feeds_eq [] [s ++ f] w

/-- No block is found before the last symbol of a single one. -/
theorem scan_of_unfinished {u v : List α} (hv : v ≠ []) (h : d.scan (u ++ v) = ⟨[], [u ++ v]⟩) :
    d.scan u = ⟨u, []⟩ := by
  have hflat := d.flatten_scan u
  have happ := congrArg Scanner.blocks (d.scan_append u v)
  rw [h, feeds_eq] at happ
  cases hb : (d.scan u).blocks with
  | nil => exact Scanner.ext (by simpa [hb] using hflat) hb
  | cons b bs =>
    -- the first block found would be the whole word already
    simp only [hb, List.cons_append, List.cons.injEq] at happ
    have hlen := congrArg List.length hflat
    have hpos := List.length_pos_of_ne_nil hv
    simp only [hb, List.flatten_cons, List.length_append, ← happ.1] at hlen
    omega

/-- **Cutting a stream leaves the blocks before the cut found, and a stream of the others after it.** -/
theorem Stream.resume {fs : List (List α)} {w : List α} (h : d.Stream d.Block fs w) :
    ∀ q r, w = q ++ r → ∃ fs₁ fs₂, fs = fs₁ ++ fs₂ ∧
      List.Forall₂ (fun f b => ∃ s, (∀ a ∈ s, d.isSpace a = true) ∧ b = s ++ f) fs₁ (d.scan q).blocks ∧
      d.Stream d.Block fs₂ ((d.scan q).piece ++ r) := by
  induction h with
  | blank hw =>
    intro q r hqr
    have hq : d.scan q = ⟨q, []⟩ := scan_spaces fun a ha => hw a (by simp [hqr, ha])
    refine ⟨[], [], rfl, ?_, ?_⟩
    · rw [hq]
      exact .nil
    · rw [hq, ← hqr]
      exact .blank hw
  | @block s f w fs hs hf h ih =>
    have hwhole : ∀ q' r, w = q' ++ r → ∃ fs₁ fs₂, f :: fs = fs₁ ++ fs₂ ∧
        List.Forall₂ (fun f b => ∃ s, (∀ a ∈ s, d.isSpace a = true) ∧ b = s ++ f) fs₁ (d.scan (s ++ f ++ q')).blocks ∧
        d.Stream d.Block fs₂ ((d.scan (s ++ f ++ q')).piece ++ r) := by
      intro q' r hq'
      obtain ⟨fs₁, fs₂, rfl, hfound, hrest⟩ := ih q' r hq'
      rw [hf.scan_append hs]
      exact ⟨f :: fs₁, fs₂, rfl, .cons ⟨s, hs, rfl⟩ hfound, hrest⟩
    intro q r hqr
    rcases List.append_eq_append_iff.1 hqr with ⟨q', rfl, hq'⟩ | ⟨c, hc, rfl⟩
    · exact hwhole q' r hq'
    · by_cases hnil : c = []
      · subst hnil
        simp only [List.append_nil] at hc
        subst hc
        simpa using hwhole [] w rfl
      · have hone : d.scan (q ++ c) = ⟨[], [q ++ c]⟩ := by
          rw [← hc]
          simpa [Delimiters.scan, feeds] using hf.scan_append hs []
        rw [scan_of_unfinished hnil hone]
        refine ⟨[], f :: fs, rfl, .nil, ?_⟩
        show d.Stream d.Block (f :: fs) (q ++ (c ++ w))
        rw [← List.append_assoc, ← hc]
        exact .block hs hf h

omit [DecidableEq α] in
theorem Stream.mono {P Q : List α → Prop} (hPQ : ∀ f, P f → Q f) {fs : List (List α)} {w : List α}
    (h : d.Stream P fs w) : d.Stream Q fs w := by
  induction h with
  | blank hw => exact .blank hw
  | block hs hf _ ih => exact .block hs (hPQ _ hf) ih

theorem Stream.plain {fs : List (List α)} {w : List α} (h : d.Stream d.Block fs w) : d.PlainFrom {} w := by
  have hspaces : ∀ s : List α, (∀ a ∈ s, d.isSpace a = true) → d.PlainFrom {} s := by
    intro s hs
    induction s with
    | nil => trivial
    | cons a s ih =>
      refine ⟨fun _ => by simp, ?_⟩
      rw [next_space (hs a (by simp)) (by simp)]
      exact ih fun b hb => hs b (by simp [hb])
  induction h with
  | blank hw => exact hspaces _ hw
  | @block s f w fs hs hf h ih =>
    have hrun : d.run {} f = {} := by
      have := d.run_piece f
      rw [hf.scan] at this
      exact this.symm
    rw [plainFrom_append, plainFrom_append, run_append, run_spaces hs (by simp), hrun]
    exact ⟨⟨hspaces s hs, hf.plain⟩, ih⟩

/-- The first symbol of a stream that is not white space begins a block. -/
theorem Stream.head {fs : List (List α)} {q r : List α} (h : d.Stream d.Block fs (q ++ r)) :
    (d.body q).head? = none ∨ (d.body q).head? = some d.opening := by
  by_cases hq : d.body q = []
  · simp [hq]
  · right
    have hqr : (d.body q).head? = (d.body (q ++ r)).head? := by
      rw [body_append, if_neg hq, List.head?_append_of_ne_nil _ hq]
    rw [hqr]
    generalize hw : q ++ r = w at h
    cases h with
    | blank hw' =>
      have : d.body q = [] := List.dropWhile_eq_nil_iff.2 fun a ha => hw' a (by simp [← hw, ha])
      exact absurd this hq
    | @block s f w fs hs hf h =>
      have hne : f ≠ [] := by
        rintro rfl
        simpa using hf.head
      have hbody : d.body f = f := by
        obtain ⟨a, t, rfl⟩ := List.exists_cons_of_ne_nil hne
        have ha : a = d.opening := by simpa using hf.head
        subst ha
        simp [body, d.visible d.opening (by simp)]
      rw [List.append_assoc, body_spaces hs, body_append, hbody, if_neg hne, List.head?_append_of_ne_nil _ hne, hf.head]

omit [DecidableEq α] in
theorem Stream.spaces_append {P : List α → Prop} {s w : List α} {fs : List (List α)}
    (hs : ∀ a ∈ s, d.isSpace a = true) (h : d.Stream P fs w) : d.Stream P fs (s ++ w) := by
  have happ : ∀ u : List α, (∀ a ∈ u, d.isSpace a = true) → ∀ a ∈ s ++ u, d.isSpace a = true := by
    intro u hu a ha
    rcases List.mem_append.1 ha with ha | ha
    · exact hs a ha
    · exact hu a ha
  cases h with
  | blank hw => exact .blank (happ _ hw)
  | @block t f w fs ht hf h =>
    have hassoc : s ++ (t ++ f ++ w) = s ++ t ++ f ++ w := by simp only [List.append_assoc]
    rw [hassoc]
    exact .block (happ t ht) hf h

/-- White space around the block that was sent does not matter. -/
theorem Respaced.of_block {s f t b : List α} (hs : ∀ a ∈ s, d.isSpace a = true) (ht : ∀ a ∈ t, d.isSpace a = true)
    (hf : d.Block f) (h : Respaced d f b) : Respaced d (s ++ f ++ t) b := by
  refine ⟨h.1.trans ?_, ?_⟩
  · rw [List.append_assoc, body_spaces hs, body_append]
    by_cases hnil : d.body f = []
    · rw [hnil]
      exact List.nil_sublist _
    · rw [if_neg hnil]
      exact List.sublist_append_left _ _
  · have hrun : d.run {} f = {} := by
      rw [← run_piece, hf.scan]
      rfl
    have hblank : d.compactFrom {} t = [] := compact_spaces ht
    rw [h.2, List.append_assoc, compact_append_spaces hs]
    show _ = d.compactFrom {} (f ++ t)
    rw [compactFrom_append, hrun, hblank, List.append_nil]
    rfl

/-! ## The receiver -/

/-- Nothing but white space, or the start of a block: the receiver scans it. -/
theorem receive_eq {b p : List α} (h : (d.body (b ++ p)).head? = none ∨ (d.body (b ++ p)).head? = some d.opening) :
    d.receive b p = d.scan (d.trim (b ++ p)) := by
  rw [← head?_trim] at h
  simp only [receive]
  rcases h with h | h
  · rw [List.head?_eq_none_iff] at h
    simp only [h]
    exact if_neg (by simp)
  · exact if_pos h

/-- What a receiver has of the stream `q` it was sent. -/
structure Follows (d : Delimiters α) (q : List α) (r : Scanner α) : Prop where
  near : Near d (d.scan q) r
  whole : d.scan r.piece = ⟨r.piece, []⟩
  plain : d.PlainFrom {} r.piece

theorem weight_blocks (bs : List (List α)) (c : Scanner α) :
    d.weight ⟨c.piece, bs ++ c.blocks⟩ = (bs.flatMap d.compact).length + d.weight c := by
  simp only [weight, List.flatMap_append, List.length_append]
  omega

/-- **One packet: the receiver keeps following, and falls behind exactly if the packet ends in white
space inside a string.** -/
theorem Follows.next {q p : List α} {r : Scanner α} {D : Nat} (h : Follows d q r) (hp : p ≠ [])
    (hplain : d.PlainFrom {} (q ++ p))
    (hhead : (d.body ((d.scan q).piece ++ p)).head? = none ∨ (d.body ((d.scan q).piece ++ p)).head? = some d.opening)
    (hD : d.weight (d.scan q) = d.weight r + D) :
    Follows d (q ++ p) (d.receiveNext r p) ∧
      ∃ D', d.weight (d.scan (q ++ p)) = d.weight (d.receiveNext r p) + D' ∧ (D' = 0 ↔ D = 0 ∧ d.Clean (q ++ p)) := by
  have hrun : d.run {} r.piece = d.run {} q := by rw [h.near.piece.run, run_piece]
  have hthin : Thinned d ((d.scan q).piece ++ p) (r.piece ++ p) := by
    clear hp hplain hhead
    induction p using List.reverseRecOn with
    | nil => simpa using h.near.piece
    | append_singleton p a ih => simpa using ih.snoc a
  have hreceive : d.receive r.piece p = d.scan (d.trim (r.piece ++ p)) := receive_eq (by rwa [hthin.head])
  have hplain' : d.PlainFrom {} (r.piece ++ p) := by
    rw [plainFrom_append, hrun]
    exact ⟨h.plain, ((plainFrom_append {} q p).1 hplain).2⟩
  obtain ⟨htrim, loss, hloss, hclean⟩ := near_trim hplain'
  -- the receiver is where a scan that trims nothing is, once the white space is gone
  obtain ⟨hnear, hwt⟩ := h.near.feeds p
  have hfeeds : d.feeds r p = ⟨(d.scan (r.piece ++ p)).piece, r.blocks ++ (d.scan (r.piece ++ p)).blocks⟩ := by
    have hw := h.whole
    rw [scan_append, hw]
    exact feeds_eq r.piece r.blocks p
  have hnext : d.receiveNext r p =
      ⟨(d.scan (d.trim (r.piece ++ p))).piece, r.blocks ++ (d.scan (d.trim (r.piece ++ p))).blocks⟩ := by
    simp only [receiveNext, hreceive]
  rw [hfeeds, ← scan_append] at hnear hwt
  rw [hnext]
  refine ⟨⟨hnear.trans ⟨htrim.piece, ?_⟩, d.scan_piece _, ?_⟩, D + loss, ?_, ?_⟩
  · exact List.rel_append (List.forall₂_same.2 fun b _ => .refl b) htrim.blocks
  · obtain ⟨s, t, hst, hs, -, -⟩ := d.exists_trim (r.piece ++ p)
    apply plain_piece
    rw [hst, List.append_assoc, plainFrom_append, run_spaces hs (by simp), plainFrom_append] at hplain'
    exact hplain'.2.1
  · have h1 := d.weight_blocks r.blocks (d.scan (r.piece ++ p))
    have h2 := d.weight_blocks r.blocks (d.scan (d.trim (r.piece ++ p)))
    omega
  · have hiff : d.Clean (r.piece ++ p) ↔ d.Clean (q ++ p) := by
      rw [Clean, Clean, run_append, run_append, hrun, List.getLast?_append_of_ne_nil _ hp,
        List.getLast?_append_of_ne_nil _ hp]
    rw [Nat.add_eq_zero_iff, hclean, hiff]

/-- The packets received so far. -/
theorem follows_receiveAll {fs : List (List α)} {ps : List (List α)} {r : List α}
    (h : d.Stream d.Block fs (ps.flatten ++ r)) (hne : ∀ p ∈ ps, p ≠ []) :
    Follows d ps.flatten (d.receiveAll ps) ∧
      ∃ D, d.weight (d.scan ps.flatten) = d.weight (d.receiveAll ps) + D ∧
        (D = 0 ↔ ∀ q, q <+: ps → d.Clean q.flatten) := by
  induction ps using List.reverseRecOn generalizing r with
  | nil =>
    refine ⟨⟨.refl _, rfl, trivial⟩, 0, rfl, ?_⟩
    simp only [List.prefix_nil, true_iff]
    rintro q rfl
    exact fun h => absurd rfl h
  | append_singleton ps p ih =>
    have hflat : (ps ++ [p]).flatten = ps.flatten ++ p := by simp
    have hall : d.receiveAll (ps ++ [p]) = d.receiveNext (d.receiveAll ps) p := List.foldl_append
    rw [hflat, hall]
    rw [hflat] at h
    have hplain : d.PlainFrom {} (ps.flatten ++ p) := ((plainFrom_append {} _ r).1 h.plain).1
    have hhead : (d.body ((d.scan ps.flatten).piece ++ p)).head? = none ∨
        (d.body ((d.scan ps.flatten).piece ++ p)).head? = some d.opening := by
      obtain ⟨_, _, _, _, hrest⟩ := h.resume ps.flatten (p ++ r) (List.append_assoc _ _ _)
      rw [← List.append_assoc] at hrest
      exact hrest.head
    rw [List.append_assoc] at h
    obtain ⟨hf, D, hD, hclean⟩ := ih h fun p' hp' => hne p' (by simp [hp'])
    obtain ⟨hf', D', hD', hclean'⟩ := hf.next (hne p (by simp)) hplain hhead hD
    refine ⟨hf', D', hD', ?_⟩
    rw [hclean', hclean]
    simp only [List.prefix_concat_iff]
    constructor
    · rintro ⟨h1, h2⟩ q (rfl | hq)
      · rwa [hflat]
      · exact h1 q hq
    · intro hq
      refine ⟨fun q hpre => hq q (.inr hpre), ?_⟩
      have := hq _ (.inl rfl)
      rwa [hflat] at this

/-- What is found when the stream is seen at once. -/
theorem Stream.found {fs : List (List α)} {w : List α} (h : d.Stream d.Block fs w) :
    List.Forall₂ (fun f b => ∃ s, (∀ a ∈ s, d.isSpace a = true) ∧ b = s ++ f) fs (d.scan w).blocks ∧
      ∀ a ∈ (d.scan w).piece, d.isSpace a = true := by
  induction h with
  | blank hw =>
    rw [scan_spaces hw]
    exact ⟨.nil, hw⟩
  | block hs hf h ih =>
    rw [hf.scan_append hs]
    exact ⟨.cons ⟨_, hs, rfl⟩ ih.1, ih.2⟩

/-- The white space before a block is in the block a scan finds, and has no weight. -/
theorem flatMap_compact_eq {fs bs : List (List α)}
    (h : List.Forall₂ (fun f b => ∃ s, (∀ a ∈ s, d.isSpace a = true) ∧ b = s ++ f) fs bs) :
    bs.flatMap d.compact = fs.flatMap d.compact := by
  induction h with
  | nil => rfl
  | cons hb _ ih =>
    obtain ⟨s, hs, rfl⟩ := hb
    rw [List.flatMap_cons, List.flatMap_cons, compact_append_spaces hs, ih]

theorem thinned_of_spaced {fs bs rs : List (List α)}
    (h : List.Forall₂ (fun f b => ∃ s, (∀ a ∈ s, d.isSpace a = true) ∧ b = s ++ f) fs bs)
    (h' : List.Forall₂ (Thinned d) bs rs) : List.Forall₂ (Thinned d) fs rs := by
  refine forall₂_trans (h.imp ?_) h'
  rintro f b ⟨s, hs, rfl⟩
  exact thinned_spaces hs f

/-- **However the stream is cut into packets, the receiver finds as many blocks as were sent, and a
scan is after each where it is after the one sent.** -/
theorem thinned_receiveAll {fs ps : List (List α)} (h : d.Stream d.Block fs ps.flatten) (hne : ∀ p ∈ ps, p ≠ []) :
    List.Forall₂ (Thinned d) fs (d.receiveAll ps).blocks := by
  obtain ⟨hf, -⟩ := follows_receiveAll (r := []) (by simpa using h) hne
  exact thinned_of_spaced h.found.1 hf.near.blocks

/-- Thinned blocks of one total weight differ outside strings only. -/
theorem respaced_iff_weight {fs rs : List (List α)} (h : List.Forall₂ (Thinned d) fs rs) :
    (rs.flatMap d.compact).length ≤ (fs.flatMap d.compact).length ∧
      ((fs.flatMap d.compact).length = (rs.flatMap d.compact).length ↔
        List.Forall₂ (Respaced d) fs rs) := by
  induction h with
  | nil => simp
  | @cons f b fs rs hfb h ih =>
    have hlen := hfb.compact.length_le
    simp only [List.flatMap_cons, List.length_append, List.forall₂_cons]
    refine ⟨by omega, fun heq => ⟨⟨hfb.sublist, ?_⟩, ih.2.1 (by omega)⟩, ?_⟩
    · exact hfb.compact.eq_of_length (by omega)
    · rintro ⟨hr, hrs⟩
      rw [ih.2.2 hrs, hr.2]

/-- **While no packet ends in white space inside a string, the blocks found are the first ones sent,
white space outside strings apart.** -/
theorem respaced_of_clean {fs ps : List (List α)} {r : List α} (h : d.Stream d.Block fs (ps.flatten ++ r))
    (hne : ∀ p ∈ ps, p ≠ []) (hclean : ∀ q, q <+: ps → d.Clean q.flatten) :
    ∃ fs₁ fs₂, fs = fs₁ ++ fs₂ ∧ List.Forall₂ (Respaced d) fs₁ (d.receiveAll ps).blocks ∧
      d.Stream d.Block fs₂ ((d.scan ps.flatten).piece ++ r) := by
  obtain ⟨hf, D, hD, hiff⟩ := follows_receiveAll h hne
  obtain ⟨fs₁, fs₂, hfs, hfound, hrest⟩ := h.resume ps.flatten r rfl
  refine ⟨fs₁, fs₂, hfs, ?_, hrest⟩
  have hthin := thinned_of_spaced hfound hf.near.blocks
  obtain ⟨hle, heq⟩ := respaced_iff_weight hthin
  rw [← heq]
  have hlen := hf.near.piece.compact.length_le
  have hzero := hiff.2 hclean
  simp only [weight, flatMap_compact_eq hfound] at hD
  omega

/-- **The blocks found are the ones sent, white space outside strings apart, exactly when no packet
ends in white space inside a string.** -/
theorem respaced_iff_clean {fs ps : List (List α)} (h : d.Stream d.Block fs ps.flatten) (hne : ∀ p ∈ ps, p ≠ []) :
    List.Forall₂ (Respaced d) fs (d.receiveAll ps).blocks ↔ ∀ q, q <+: ps → d.Clean q.flatten := by
  obtain ⟨hf, D, hD, hclean⟩ := follows_receiveAll (r := []) (by simpa using h) hne
  rw [← hclean, ← (respaced_iff_weight (thinned_receiveAll h hne)).2]
  -- what the whole scan and the receiver keep has no weight
  have hpiece : d.compact (d.scan ps.flatten).piece = [] := compact_spaces h.found.2
  have hkept : d.compact (d.receiveAll ps).piece = [] := by
    have := hf.near.piece.compact
    rwa [hpiece, List.sublist_nil] at this
  simp only [weight, hpiece, hkept, flatMap_compact_eq h.found.1, List.length_nil] at hD
  omega

/-- Nothing is kept once the stream has ended. -/
theorem receiveAll_piece {fs ps : List (List α)} (h : d.Stream d.Block fs ps.flatten) (hne : ∀ p ∈ ps, p ≠ []) :
    (d.receiveAll ps).piece = [] := by
  obtain ⟨hf, -⟩ := follows_receiveAll (r := []) (by simpa using h) hne
  have hblank : ∀ a ∈ (d.receiveAll ps).piece, d.isSpace a = true := by
    have hbody : d.body (d.scan ps.flatten).piece = [] := List.dropWhile_eq_nil_iff.2 h.found.2
    exact List.dropWhile_eq_nil_iff.1 (hf.near.piece.body_eq_nil.2 hbody)
  by_contra hnil
  cases ps using List.reverseRecOn with
  | nil => exact hnil rfl
  | append_singleton ps p =>
    have hall : d.receiveAll (ps ++ [p]) = d.receiveNext (d.receiveAll ps) p := List.foldl_append
    rw [hall] at hblank hnil
    simp only [receiveNext, receive] at hblank hnil
    generalize (d.receiveAll ps).piece ++ p = w at hblank hnil
    split at hnil
    · rename_i hopen
      rw [if_pos hopen] at hblank
      -- what a scan keeps ends where the trimmed word does
      obtain ⟨_, _, _, _, _, hlast⟩ := d.exists_trim w
      have hmem := List.getLast_mem hnil
      have heq : (d.trim w).getLast? = some ((d.scan (d.trim w)).piece.getLast hnil) := by
        rw [← List.getLast?_eq_some_getLast hnil, ← List.getLast?_append_of_ne_nil _ hnil, flatten_scan]
      have := hlast _ heq
      simp [hblank _ hmem] at this
    · exact hnil rfl

theorem bareFrom_iff {s : State} {w : List α} :
    d.bareFrom s w = true ↔ ∀ u a v, w = u ++ a :: v → d.isSpace a = true → (d.run s u).string = none := by
  induction w generalizing s with
  | nil => simp [bareFrom]
  | cons b w ih =>
    simp only [bareFrom, Bool.and_eq_true, Bool.or_eq_true, Bool.not_eq_true', Option.isNone_iff_eq_none, ih]
    constructor
    · rintro ⟨hb, hw⟩ u a v huv ha
      cases u with
      | nil =>
        obtain ⟨rfl, rfl⟩ : b = a ∧ w = v := by simpa using huv
        exact hb.resolve_left (by simp [ha])
      | cons c u =>
        obtain ⟨rfl, rfl⟩ : b = c ∧ w = u ++ a :: v := by simpa using huv
        exact hw u a v rfl ha
    · intro h
      refine ⟨?_, fun u a v huv ha => h (b :: u) a v (by simp [huv]) ha⟩
      by_cases hb : d.isSpace b = true
      · exact .inr (h [] b w rfl hb)
      · exact .inl (by simpa using hb)

/-- **The blocks found are the ones sent however the stream is cut into packets, exactly when no string
in it has white space.** -/
theorem forall_respaced_iff_bare {fs : List (List α)} {w : List α} (h : d.Stream d.Block fs w) :
    (∀ ps : List (List α), (∀ p ∈ ps, p ≠ []) → ps.flatten = w →
      List.Forall₂ (Respaced d) fs (d.receiveAll ps).blocks) ↔ d.bareFrom {} w = true := by
  rw [bareFrom_iff]
  constructor
  · intro hall u a v huv ha
    by_contra hstr
    -- a cut right after the white space
    have hcut : ∀ ps : List (List α), (∀ p ∈ ps, p ≠ []) → ps.flatten = w → ¬ [u ++ [a]] <+: ps := by
      rintro ps hne rfl hpre
      have hclean := (respaced_iff_clean h hne).1 (hall ps hne rfl) _ hpre
      simp only [List.flatten_cons, List.flatten_nil, List.append_nil, Clean, run_snoc] at hclean
      have hnext : (d.next (d.run {} u) a).string ≠ none := by
        generalize d.run {} u = s at hstr
        obtain ⟨n, _ | _ | _⟩ := s
        · exact absurd rfl hstr
        · simp [next, ne_of_isSpace ha (b := d.quote)]
        · simp [next]
      simpa [ha] using hclean hnext a (by simp)
    by_cases hv : v = []
    · exact hcut [u ++ [a]] (by simp) (by simp [huv, hv]) (List.prefix_refl _)
    · exact hcut [u ++ [a], v] (by simp [hv]) (by simp [huv]) (by simp)
  · rintro hbare ps hne rfl
    rw [respaced_iff_clean h hne]
    rintro q ⟨r, rfl⟩ hstr a ha
    obtain ⟨u, hu⟩ : ∃ u, q.flatten = u ++ [a] := List.getLast?_eq_some_iff.1 ha
    by_contra hspace
    simp only [Bool.not_eq_false] at hspace
    have hnone := hbare u a r.flatten (by simp [hu]) hspace
    rw [hu, run_snoc, next_space hspace (by simp [hnone])] at hstr
    exact hstr hnone

end Delimiters

end Framing
