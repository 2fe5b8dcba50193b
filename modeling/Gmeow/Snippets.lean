import Gmeow.Runes

/-!
# Search snippets

A snippet of a text is a window around the first match of a filter, escaped for HTML, with the match
in a `mark` element and dots where the window ends before the text does. It is then cut to a limit:
the limit is compared with the octets, but the cut is made by runes of the finished markup.

* `Piece`, `render` — the markup, piece by piece;
* `snippetPieces`, `trimOctets`, `markedSnippet` — the snippet;
* `WellFormed` — pieces that are all there, in few enough octets, with the text between dots;
* `snippet_wellFormed_iff` — a snippet is so exactly if the markup fits, or the cut falls between
  two pieces outside of the mark and behind single-octet runes.

`unicode.ToLower` is a parameter.
-/

namespace Gmeow.Snippets

open Runes

/-! ## Markup -/

/-- A rune of the text, or the start or the end of the mark. -/
inductive Piece : Type
  | text (c : Char)
  | opened
  | closed
deriving DecidableEq

/-- `html.EscapeString`, for one rune. -/
def escapeRune (c : Char) : Runes :=
  if c = '&' then "&amp;".toList
  else if c = '\'' then "&#39;".toList
  else if c = '<' then "&lt;".toList
  else if c = '>' then "&gt;".toList
  else if c = '"' then "&#34;".toList
  else [c]

/-- How a piece is written. -/
def Piece.render : Piece → Runes
  | .text c => escapeRune c
  | .opened => "<mark>".toList
  | .closed => "</mark>".toList

theorem Piece.render_text (c : Char) : (Piece.text c).render = escapeRune c := rfl

/-- The markup. -/
def render (pieces : List Piece) : Runes := pieces.flatMap Piece.render

/-- The text without marks and escapes. -/
def plain (pieces : List Piece) : Runes :=
  pieces.filterMap fun
    | .text c => some c
    | _ => none

/-- Each mark is closed; whether one is open at the start is given. -/
def closes : Bool → List Piece → Bool
  | inside, [] => !inside
  | inside, .text _ :: rest => closes inside rest
  | inside, .opened :: rest => !inside && closes true rest
  | inside, .closed :: rest => inside && closes false rest

/-! ## Snippets -/

/-- `collapseWhitespace`. -/
def collapseWhitespace (value : Runes) : Runes := [' '].intercalate (fields value)

/-- The needle stands here. -/
def matchesFold (lower : Char → Char) : Runes → Runes → Bool
  | [], _ => true
  | _ :: _, [] => false
  | d :: needle, c :: value => lower c = lower d && matchesFold lower needle value

/-- `runeIndexFold`; no index is -1 there. -/
def runeIndexFold (lower : Char → Char) (needle : Runes) : Runes → Option Nat
  | [] => if matchesFold lower needle [] then some 0 else none
  | c :: value =>
    if matchesFold lower needle (c :: value) then some 0
    else (runeIndexFold lower needle value).map (· + 1)

/-- `trimOctets`. -/
def trimOctets (value : Runes) (limit : Nat) : Runes :=
  if limit = 0 ∨ utf8Length value ≤ limit then value
  else if limit ≤ 3 then value.take limit
  else if value.length ≤ limit then value
  else value.take (limit - 3) ++ "...".toList

/-- Dots, or nothing. -/
def dotsIf (cut : Bool) : List Piece := if cut then "...".toList.map .text else []

/-- The markup of `markedSnippet`, before it is cut. -/
def snippetPieces (lower : Char → Char) (value filterText : Runes) : Option (List Piece) :=
  let runes := collapseWhitespace value
  if runes = [] then none
  else if filterText = [] then some (runes.map .text)
  else match runeIndexFold lower filterText runes with
    | none => none
    | some location =>
      let start := location - 80
      let stop := min runes.length (location + filterText.length + 120)
      let window := (runes.drop start).take (stop - start)
      let relative := location - start
      some (dotsIf (0 < start) ++ ((window.take relative).map .text ++ (.opened ::
        (((window.drop relative).take filterText.length).map .text ++ (.closed ::
          ((window.drop (relative + filterText.length)).map .text ++
            dotsIf (stop < runes.length)))))))

/-- `markedSnippet`. -/
def markedSnippet (lower : Char → Char) (value filterText : Runes) (limit : Nat) : Option Runes :=
  (snippetPieces lower value filterText).map fun pieces => trimOctets (render pieces) limit

/-- Part of a text, between dots. -/
def Excerpt (text out : Runes) : Prop :=
  ∃ lead body trail, out = lead ++ (body ++ trail) ∧ (∀ c ∈ lead, c = '.') ∧
    (∀ c ∈ trail, c = '.') ∧ body <:+: text

/-- **What is asked of a snippet**: it is in the limit, made of whole pieces, its marks are closed,
and without them it is a part of the text between dots. -/
def WellFormed (value : Runes) (limit : Nat) (out : Runes) : Prop :=
  utf8Length out ≤ limit ∧ ∃ pieces, out = render pieces ∧ closes false pieces = true ∧
    Excerpt (collapseWhitespace value) (plain pieces)

/-- The cut falls between two pieces, outside of the mark and behind single octets. -/
def CleanCut (pieces : List Piece) (limit : Nat) : Prop :=
  limit < (render pieces).length ∧ ∃ k, (render (pieces.take k)).length = limit - 3 ∧
    utf8Length (render (pieces.take k)) ≤ limit - 3 ∧ closes false (pieces.take k) = true

/-! ## Pieces that are cut -/

theorem render_append (p q : List Piece) : render (p ++ q) = render p ++ render q :=
  List.flatMap_append

theorem plain_append (p q : List Piece) : plain (p ++ q) = plain p ++ plain q :=
  List.filterMap_append

@[simp] theorem plain_text (text : Runes) : plain (text.map .text) = text := by
  rw [plain, List.filterMap_map]
  exact List.filterMap_some

theorem plain_opened (p : List Piece) : plain (.opened :: p) = plain p := rfl

theorem plain_closed (p : List Piece) : plain (.closed :: p) = plain p := rfl

theorem utf8Length_append (a b : Runes) : utf8Length (a ++ b) = utf8Length a + utf8Length b := by
  rw [utf8Length, List.map_append, List.sum_append]
  rfl

theorem closes_append_text (inside : Bool) (p : List Piece) (text : Runes) :
    closes inside (p ++ text.map .text) = closes inside p := by
  induction p generalizing inside with
  | nil =>
    induction text with
    | nil => rfl
    | cons c rest ih => exact ih
  | cons piece rest ih => cases piece <;> simp [closes, ih]

/-- The pieces of more than one rune. -/
def longPieces : List Piece :=
  [.text '&', .text '\'', .text '<', .text '>', .text '"', .opened, .closed]

theorem long_or_rune (piece : Piece) :
    piece ∈ longPieces ∨ ∃ c, piece = .text c ∧ piece.render = [c] ∧ c ≠ '&' ∧ c ≠ '<' := by
  cases piece with
  | opened => exact .inl (by decide)
  | closed => exact .inl (by decide)
  | text c =>
    by_cases hlong : Piece.text c ∈ longPieces
    · exact .inl hlong
    · simp only [longPieces, List.mem_cons, Piece.text.injEq, reduceCtorEq, List.not_mem_nil,
        or_false, not_or] at hlong
      obtain ⟨hamp, hquote, hless, hmore, hdouble⟩ := hlong
      refine .inr ⟨c, rfl, ?_, hamp, hless⟩
      rw [Piece.render_text, escapeRune, if_neg hamp, if_neg hquote, if_neg hless, if_neg hmore,
        if_neg hdouble]

theorem long_head : ∀ piece ∈ longPieces, ∃ c rest, piece.render = c :: rest ∧ rest ≠ [] ∧
    (c = '&' ∨ c = '<') := by
  intro piece hmem
  simp only [longPieces, List.mem_cons, List.not_mem_nil, or_false] at hmem
  rcases hmem with rfl | rfl | rfl | rfl | rfl | rfl | rfl <;>
    exact ⟨_, _, rfl, by decide, by decide⟩

theorem render_ne_nil (piece : Piece) : piece.render ≠ [] := by
  rcases long_or_rune piece with hlong | ⟨c, -, hrender, -⟩
  · obtain ⟨c, rest, hrender, -⟩ := long_head piece hlong
    simp [hrender]
  · simp [hrender]

/-- No piece begins another. -/
theorem eq_of_render_front {p q : Piece} (h : p.render <+: q.render) : p = q := by
  have hlongs : ∀ p ∈ longPieces, ∀ q ∈ longPieces, p.render <+: q.render → p = q := by
    decide +kernel
  rcases long_or_rune p with hp | ⟨c, rfl, hc, hamp, hless⟩ <;>
    rcases long_or_rune q with hq | ⟨d, rfl, hd, -⟩
  · exact hlongs p hp q hq h
  · obtain ⟨c, rest, hrender, hrest, -⟩ := long_head p hp
    rw [hrender, hd, List.cons_prefix_cons, List.prefix_nil] at h
    exact absurd h.2 hrest
  · obtain ⟨d, rest, hrender, -, hspecial⟩ := long_head q hq
    rw [hrender, hc, List.cons_prefix_cons] at h
    obtain ⟨rfl, -⟩ := h
    exact absurd hspecial (not_or.mpr ⟨hamp, hless⟩)
  · rw [hc, hd, List.cons_prefix_cons] at h
    rw [h.1]

/-- What begins with the markup of some pieces begins with these pieces. -/
theorem append_of_render {p q : List Piece} {rest : Runes} (h : render q = render p ++ rest) :
    ∃ more, q = p ++ more ∧ render more = rest := by
  induction p generalizing q with
  | nil => exact ⟨q, rfl, h⟩
  | cons first p ih =>
    cases q with
    | nil =>
      have hnil := List.append_eq_nil_iff.mp h.symm
      exact absurd (List.append_eq_nil_iff.mp hnil.1).1 (render_ne_nil first)
    | cons head q =>
      have happend : head.render ++ render q = first.render ++ (render p ++ rest) := by
        rw [← List.append_assoc]
        exact h
      have hsame : head = first := by
        rcases List.append_eq_append_iff.mp happend with ⟨more, hmore, -⟩ | ⟨more, hmore, -⟩
        · exact eq_of_render_front ⟨more, hmore.symm⟩
        · exact (eq_of_render_front ⟨more, hmore.symm⟩).symm
      subst hsame
      obtain ⟨more, hq, hmore⟩ := ih (List.append_cancel_left happend)
      exact ⟨more, by rw [hq, List.cons_append], hmore⟩

/-- A cut falls between two pieces or in a long one. -/
theorem take_render (pieces : List Piece) (n : Nat) :
    ∃ k part, (render pieces).take n = render (pieces.take k) ++ part ∧ (part = [] ∨
      ∃ p ∈ longPieces, ∃ m, 0 < m ∧ m < p.render.length ∧ part = p.render.take m) := by
  induction pieces generalizing n with
  | nil => exact ⟨0, [], by simp [render], .inl rfl⟩
  | cons first rest ih =>
    have hcons : render (first :: rest) = first.render ++ render rest := rfl
    by_cases hlen : first.render.length ≤ n
    · obtain ⟨k, part, htake, hpart⟩ := ih (n - first.render.length)
      refine ⟨k + 1, part, ?_, hpart⟩
      rw [hcons, List.take_append, List.take_of_length_le hlen, htake, List.take_succ_cons,
        ← List.append_assoc]
      rfl
    · have htake : (render (first :: rest)).take n = first.render.take n := by
        rw [hcons, List.take_append_of_le_length (by omega)]
      rcases Nat.eq_zero_or_pos n with rfl | hpos
      · exact ⟨0, [], by simp [render], .inl rfl⟩
      · refine ⟨0, first.render.take n, htake, .inr ⟨first, ?_, n, hpos, by omega, rfl⟩⟩
        rcases long_or_rune first with hlong | ⟨c, -, hrender, -⟩
        · exact hlong
        · rw [hrender, List.length_singleton] at hlen
          omega

/-- Part of a piece and dots are no markup. -/
theorem render_ne_part {p : Piece} (hp : p ∈ longPieces) {m : Nat} (hpos : 0 < m)
    (hlt : m < p.render.length) (q : List Piece) : render q ≠ p.render.take m ++ "...".toList := by
  intro h
  have hlongs : ∀ p ∈ longPieces, ∀ m < p.render.length, 0 < m → ∀ q ∈ longPieces,
      ¬ q.render <+: p.render.take m ++ "...".toList := by decide +kernel
  obtain ⟨c, rest, hrender, -, hspecial⟩ := long_head p hp
  obtain ⟨m, rfl⟩ : ∃ k, m = k + 1 := ⟨m - 1, by omega⟩
  cases q with
  | nil =>
    rw [hrender] at h
    exact absurd h (by simp [render])
  | cons first q =>
    rcases long_or_rune first with hfirst | ⟨d, -, hd, hamp, hless⟩
    · exact hlongs p hp _ hlt hpos first hfirst ⟨render q, h⟩
    · -- a single rune is not the one a long piece begins with
      have hcons : d :: render q = c :: (rest.take m ++ "...".toList) := by
        calc d :: render q = first.render ++ render q := by rw [hd]; rfl
          _ = (c :: rest).take (m + 1) ++ "...".toList := by rw [← hrender]; exact h
          _ = c :: (rest.take m ++ "...".toList) := rfl
      obtain ⟨rfl, -⟩ := List.cons.inj hcons
      exact absurd hspecial (not_or.mpr ⟨hamp, hless⟩)

/-! ## Excerpts -/

theorem prefix_append_cases {α : Type} {l a b : List α} (h : l <+: a ++ b) :
    l <+: a ∨ ∃ more, l = a ++ more ∧ more <+: b := by
  obtain ⟨rest, hrest⟩ := h
  rcases List.append_eq_append_iff.mp hrest with ⟨more, ha, -⟩ | ⟨more, hl, hb⟩
  · exact .inl ⟨more, ha.symm⟩
  · exact .inr ⟨more, hl, ⟨rest, hb.symm⟩⟩

/-- The start of an excerpt, with dots behind it, is one. -/
theorem Excerpt.cut {text out start dots : Runes} (h : Excerpt text out) (hstart : start <+: out)
    (hdots : ∀ c ∈ dots, c = '.') : Excerpt text (start ++ dots) := by
  obtain ⟨lead, body, trail, rfl, hlead, htrail, hbody⟩ := h
  rcases prefix_append_cases hstart with hstart | ⟨more, rfl, hmore⟩
  · exact ⟨start, [], dots, rfl, fun c hc => hlead c (hstart.subset hc), hdots,
      List.nil_infix⟩
  · rcases prefix_append_cases hmore with hmore | ⟨tail, rfl, htail⟩
    · exact ⟨lead, more, dots, List.append_assoc .., hlead, hdots, hmore.isInfix.trans hbody⟩
    · refine ⟨lead, body, tail ++ dots, by simp only [List.append_assoc], hlead, ?_, hbody⟩
      intro c hc
      rcases List.mem_append.mp hc with hc | hc
      · exact htrail c (htail.subset hc)
      · exact hdots c hc

theorem closes_text_append (inside : Bool) (text : Runes) (p : List Piece) :
    closes inside (text.map .text ++ p) = closes inside p := by
  induction text with
  | nil => rfl
  | cons c rest ih => exact ih

theorem dotsIf_spec (cut : Bool) :
    ∃ dots : Runes, dotsIf cut = dots.map .text ∧ ∀ c ∈ dots, c = '.' := by
  cases cut with
  | false => exact ⟨[], rfl, by simp⟩
  | true => exact ⟨"...".toList, rfl, by decide⟩

variable {value : Runes} {pieces : List Piece} {limit : Nat}

/-- Before it is cut a snippet is as it should be. -/
theorem snippetPieces_spec {lower : Char → Char} {filterText : Runes}
    (h : snippetPieces lower value filterText = some pieces) :
    closes false pieces = true ∧ Excerpt (collapseWhitespace value) (plain pieces) := by
  unfold snippetPieces at h
  by_cases hempty : collapseWhitespace value = []
  · simp [hempty] at h
  by_cases hfilter : filterText = []
  · simp only [hempty, hfilter, if_false, if_true, Option.some.injEq] at h
    subst h
    refine ⟨by simpa [closes] using closes_text_append false (collapseWhitespace value) [], ?_⟩
    exact ⟨[], _, [], by simp, by simp, by simp, List.infix_rfl⟩
  simp only [hempty, hfilter, if_false] at h
  cases hindex : runeIndexFold lower filterText (collapseWhitespace value) with
  | none => simp [hindex] at h
  | some location =>
    simp only [hindex, Option.some.injEq] at h
    obtain ⟨lead, hlead, hleads⟩ := dotsIf_spec (decide (0 < location - 80))
    obtain ⟨trail, htrail, htrails⟩ := dotsIf_spec (decide (min (collapseWhitespace value).length
      (location + filterText.length + 120) < (collapseWhitespace value).length))
    rw [hlead, htrail] at h
    subst h
    constructor
    · simp only [closes_text_append, closes, Bool.not_false, Bool.true_and]
      simpa [closes] using closes_text_append false trail []
    · generalize hw : ((collapseWhitespace value).drop (location - 80)).take _ = window
      refine ⟨lead, window, trail, ?_, hleads, htrails, ?_⟩
      · have hwindow := List.take_append_drop (location - (location - 80)) window
        have hmatch := List.take_append_drop filterText.length
          (window.drop (location - (location - 80)))
        rw [List.drop_drop] at hmatch
        calc _ = lead ++ (window.take (location - (location - 80)) ++
              ((window.drop (location - (location - 80))).take filterText.length ++
                (window.drop (location - (location - 80) + filterText.length) ++ trail))) := by
              simp only [plain_append, plain_text, plain_opened, plain_closed]
          _ = lead ++ (window ++ trail) := by
              conv_rhs => rw [← hwindow, ← hmatch]
              simp only [List.append_assoc]
      · rw [← hw]
        exact (List.take_prefix ..).isInfix.trans (List.drop_suffix ..).isInfix

/-! ## The cut -/

theorem trimOctets_long (hlimit : 32 ≤ limit) (hlong : limit < utf8Length value) :
    trimOctets value limit =
      if value.length ≤ limit then value else value.take (limit - 3) ++ "...".toList := by
  rw [trimOctets, if_neg (by omega), if_neg (by omega)]

theorem trimOctets_short (hshort : utf8Length value ≤ limit) : trimOctets value limit = value :=
  if_pos (.inr hshort)

/-- What the cut leaves is markup only if it falls between two pieces. -/
theorem cleanCut_of_render {out : List Piece} (hlimit : 32 ≤ limit)
    (hrunes : limit < (render pieces).length) (hclosed : closes false out = true)
    (hout : (render pieces).take (limit - 3) ++ "...".toList = render out)
    (hoctets : utf8Length (render out) ≤ limit) : CleanCut pieces limit := by
  obtain ⟨k, part, htake, hpart⟩ := take_render pieces (limit - 3)
  rw [htake, List.append_assoc] at hout
  obtain ⟨more, rfl, hmore⟩ := append_of_render hout.symm
  rcases hpart with rfl | ⟨p, hp, m, hpos, hlt, rfl⟩
  · have hdots : more = "...".toList.map .text := by
      have hrender : render more = render ("...".toList.map .text) ++ [] := hmore
      obtain ⟨tail, rfl, htail⟩ := append_of_render hrender
      cases tail with
      | nil => rw [List.append_nil]
      | cons first tail =>
        exact absurd (List.append_eq_nil_iff.mp htail).1 (render_ne_nil first)
    rw [List.append_nil] at htake
    have hthree : utf8Length (render more) = 3 := by rw [hmore]; decide
    rw [render_append, utf8Length_append, hthree] at hoctets
    refine ⟨hrunes, k, ?_, by omega, ?_⟩
    · rw [← htake, List.length_take]
      omega
    · rw [hdots, closes_append_text] at hclosed
      exact hclosed
  · exact absurd hmore (render_ne_part hp hpos hlt more)

/-- For markup that is in order before the cut. -/
theorem trimOctets_wellFormed_iff (hlimit : 32 ≤ limit) (hclosed : closes false pieces = true)
    (hexcerpt : Excerpt (collapseWhitespace value) (plain pieces)) :
    WellFormed value limit (trimOctets (render pieces) limit) ↔
      utf8Length (render pieces) ≤ limit ∨ CleanCut pieces limit := by
  by_cases hshort : utf8Length (render pieces) ≤ limit
  · rw [trimOctets_short hshort]
    exact iff_of_true ⟨hshort, pieces, rfl, hclosed, hexcerpt⟩ (.inl hshort)
  rw [trimOctets_long hlimit (by omega)]
  by_cases hrunes : (render pieces).length ≤ limit
  · -- the runes are few enough, so all the octets stay
    rw [if_pos hrunes]
    refine iff_of_false (fun h => hshort h.1) ?_
    rintro (h | ⟨h, -⟩)
    · exact hshort h
    · omega
  rw [if_neg hrunes]
  constructor
  · rintro ⟨hoctets, out, hout, hout', -⟩
    rw [hout] at hoctets
    exact .inr (cleanCut_of_render hlimit (by omega) hout' hout hoctets)
  · rintro (h | ⟨-, k, hlength, hoctets, hout⟩)
    · exact absurd h hshort
    have hprefix : render (pieces.take k) <+: render pieces := by
      refine ⟨render (pieces.drop k), ?_⟩
      rw [← render_append, List.take_append_drop]
    have htake : (render pieces).take (limit - 3) = render (pieces.take k) := by
      rw [← hlength]
      exact (List.prefix_iff_eq_take.mp hprefix).symm
    have hthree : utf8Length "...".toList = 3 := by decide
    refine ⟨?_, pieces.take k ++ "...".toList.map .text, ?_, ?_, ?_⟩
    · rw [htake, utf8Length_append, hthree]
      omega
    · rw [htake, render_append]
      rfl
    · rw [closes_append_text, hout]
    · rw [plain_append, plain_text]
      refine hexcerpt.cut ⟨plain (pieces.drop k), ?_⟩ (by decide)
      rw [← plain_append, List.take_append_drop]

/-- **A snippet is well formed exactly if its markup fits, or the cut falls between two pieces
outside of the mark and behind single octets.** -/
theorem snippet_wellFormed_iff (lower : Char → Char) (value filterText : Runes) (limit : Nat)
    (hlimit : 32 ≤ limit) :
    (∀ out, markedSnippet lower value filterText limit = some out → WellFormed value limit out) ↔
      ∀ pieces, snippetPieces lower value filterText = some pieces →
        utf8Length (render pieces) ≤ limit ∨ CleanCut pieces limit := by
  constructor
  · intro h pieces hpieces
    obtain ⟨hclosed, hexcerpt⟩ := snippetPieces_spec hpieces
    refine (trimOctets_wellFormed_iff hlimit hclosed hexcerpt).mp (h _ ?_)
    rw [markedSnippet, hpieces, Option.map_some]
  · intro h out hout
    obtain ⟨pieces, hpieces, rfl⟩ := Option.map_eq_some_iff.mp hout
    obtain ⟨hclosed, hexcerpt⟩ := snippetPieces_spec hpieces
    exact (trimOctets_wellFormed_iff hlimit hclosed hexcerpt).mpr (h pieces hpieces)

/-- Seventeen runes of two octets are within any limit of runes. -/
def accents : Runes := List.replicate 17 'é'

theorem short_text_wellFormed : 32 ≤ 32 ∧
    ∀ out, markedSnippet id "a < b".toList "b".toList 32 = some out →
      WellFormed "a < b".toList 32 out := by
  refine ⟨Nat.le_refl 32, (snippet_wellFormed_iff id _ _ 32 (Nat.le_refl 32)).mpr ?_⟩
  intro pieces hpieces
  have hshort : (snippetPieces id "a < b".toList "b".toList).map
      (fun pieces => decide (utf8Length (render pieces) ≤ 32)) = some true := by decide +kernel
  rw [hpieces, Option.map_some, Option.some.injEq, decide_eq_true_eq] at hshort
  exact .inl hshort

theorem accents_not_wellFormed : markedSnippet id accents [] 32 = some accents ∧
    ¬ WellFormed accents 32 accents :=
  ⟨by decide +kernel, fun h => absurd h.1 (by decide +kernel)⟩

end Gmeow.Snippets
