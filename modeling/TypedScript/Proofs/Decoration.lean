import Mathlib.Tactic.Common
import TypedScript.Report.Rendering

/-!
# Colour is only decoration

A report in colour is the report without it, with escape sequences put in. This holds of each
piece that a report is made of: a piece in a style has a sequence before it and one behind it, and
all other pieces are written as they are. As long as no piece brings an escape character of its
own, each such character starts a sequence that is complete before the next piece begins. So what
holds of the pieces holds of the whole report, and the report without its sequences is the one
that is written without colour.
-/
namespace TypedScript

namespace Style

/-! ## Decorated texts -/

/-- The first text is the second one with escape sequences put in. The second one has no escape
characters. -/
inductive Decorates : List Char → List Char → Prop
  | nil : Decorates [] []
  | char {x : Char} {shown plain : List Char} : x ≠ '\x1b' → Decorates shown plain →
      Decorates (x :: shown) (x :: plain)
  | sequence {codes shown plain : List Char} : (∀ x ∈ codes, x.isDigit = true ∨ x = ';') →
      Decorates shown plain → Decorates ('\x1b' :: '[' :: (codes ++ 'm' :: shown)) plain

section Decorates

variable {a b c d shown plain codes rest : List Char}

lemma Decorates.append (hab : Decorates a b) (hcd : Decorates c d) :
    Decorates (a ++ c) (b ++ d) := by
  induction hab with
  | nil => exact hcd
  | char hx _ ih => exact .char hx ih
  | sequence hcodes _ ih => simpa using Decorates.sequence hcodes ih

lemma Decorates.refl (hplain : '\x1b' ∉ plain) : Decorates plain plain := by
  induction plain with
  | nil => exact .nil
  | cons x plain ih =>
    obtain ⟨hx, hplain⟩ : '\x1b' ≠ x ∧ '\x1b' ∉ plain := by simpa using hplain
    exact .char hx.symm (ih hplain)

/-! ### Stripping -/

lemma afterSequence?_append (hcodes : ∀ x ∈ codes, x.isDigit = true ∨ x = ';') :
    afterSequence? (codes ++ 'm' :: rest) = some rest := by
  induction codes with
  | nil => simp [afterSequence?]
  | cons x codes ih =>
    obtain ⟨hx, hcodes⟩ := List.forall_mem_cons.1 hcodes
    simp [afterSequence?, hx, ih hcodes]

lemma stripChars_cons {x : Char} (hx : x ≠ '\x1b') :
    stripChars (x :: rest) = x :: stripChars rest := by
  rw [stripChars]
  intro _ h
  exact absurd h hx

lemma stripChars_sequence (hcodes : ∀ x ∈ codes, x.isDigit = true ∨ x = ';') :
    stripChars ('\x1b' :: '[' :: (codes ++ 'm' :: rest)) = stripChars rest := by
  have hafter : afterSequence? (codes ++ 'm' :: rest) = some rest := afterSequence?_append hcodes
  rw [stripChars]
  split
  · next after h =>
    obtain rfl := Option.some.inj (hafter.symm.trans h)
    rfl
  · next h => simp [hafter] at h

lemma stripChars_of_decorates (h : Decorates shown plain) : stripChars shown = plain := by
  induction h with
  | nil => simp [stripChars]
  | char hx _ ih => rw [stripChars_cons hx, ih]
  | sequence hcodes _ ih => rw [stripChars_sequence hcodes, ih]

end Decorates

/-! ## Texts -/

/-- The text has no escape characters. -/
def IsPlain (text : String) : Prop := '\x1b' ∉ text.toList

instance (text : String) : Decidable (IsPlain text) := inferInstanceAs (Decidable (_ ∉ _))

section Plain

variable {s t : String}

@[simp] lemma isPlain_append : IsPlain (s ++ t) ↔ IsPlain s ∧ IsPlain t := by
  simp [IsPlain]

lemma isPlain_replicate {x : Char} (hx : x ≠ '\x1b') (n : Nat) :
    IsPlain (String.ofList (List.replicate n x)) := by
  simp [IsPlain, hx.symm]

lemma isDigit_of_mem_repr {n : Nat} {x : Char} (hx : x ∈ n.repr.toList) : x.isDigit = true := by
  rw [Nat.toList_repr] at hx
  exact Nat.isDigit_of_mem_toDigits (by decide) (by decide) hx

@[simp] lemma isPlain_repr_nat (n : Nat) : IsPlain n.repr := by
  intro hmem
  have hdigit := isDigit_of_mem_repr hmem
  simp at hdigit

@[simp] lemma isPlain_repr_int (n : Int) : IsPlain n.repr := by
  rw [Int.repr_eq_if]
  split
  · simp
  · simp +decide

end Plain

/-- The first text is the second one with escape sequences put in. -/
def Shows (s t : String) : Prop := Decorates s.toList t.toList

section Shows

variable {s s' t t' : String}

lemma Shows.refl (ht : IsPlain t) : Shows t t := Decorates.refl ht

lemma Shows.append (hst : Shows s t) (hst' : Shows s' t') : Shows (s ++ s') (t ++ t') := by
  simpa [Shows] using Decorates.append hst hst'

lemma Shows.join {α : Type} {f g : α → String} (xs : List α) (h : ∀ x ∈ xs, Shows (f x) (g x)) :
    Shows (String.join (xs.map f)) (String.join (xs.map g)) := by
  induction xs with
  | nil => exact .nil
  | cons x xs ih =>
    obtain ⟨hx, hxs⟩ := List.forall_mem_cons.1 h
    simpa [Shows] using Decorates.append hx (ih hxs)

lemma Shows.empty : Shows "" "" := Decorates.nil

lemma shows_feed : Shows "\n" "\n" := .refl (by decide)

lemma Shows.ite {p : Prop} [Decidable p] (hst : Shows s t) (hst' : Shows s' t') :
    Shows (if p then s else s') (if p then t else t') := by
  split
  · exact hst
  · exact hst'

/-- What is shown is what was written, without the sequences. -/
lemma Shows.strip_eq (hst : Shows s t) : strip s = t := by
  rw [strip, stripChars_of_decorates hst, String.ofList_toList]

end Shows

/-! ## Painters -/

/-- An escape sequence: digits and semicolons between its bracket and the letter `m`. -/
def IsSequence (text : String) : Prop :=
  ∃ codes : List Char, (∀ x ∈ codes, x.isDigit = true ∨ x = ';') ∧
    text = "\x1b[" ++ String.ofList codes ++ "m"

/-- The text stands between two sequences; a line feed at its end may stand behind them. -/
def Framed (text written : String) : Prop :=
  ∃ start stop, IsSequence start ∧ IsSequence stop ∧
    (written = start ++ text ++ stop ∨
      ∃ line, text = line ++ "\n" ∧ written = start ++ line ++ stop ++ "\n")

end Style

open Style

/-- What a painter is asked for: the text alone with colour off, and with colour on the text
between two sequences. -/
structure Painter.Lawful (painter : Painter) : Prop where
  print_off (attributes : List Attribute) (text : String) :
    painter.print false attributes text = text
  print_on (attributes : List Attribute) (text : String) :
    Framed text (painter.print true attributes text)
  printLine_off (attributes : List Attribute) (text : String) :
    painter.printLine false attributes text = text ++ "\n"
  printLine_on (attributes : List Attribute) (text : String) :
    Framed (text ++ "\n") (painter.printLine true attributes text)

namespace Style

variable {s t : String}

lemma IsSequence.shows (hs : IsSequence s) : Shows s "" := by
  obtain ⟨codes, hcodes, rfl⟩ := hs
  have h := Decorates.sequence hcodes .nil
  simpa [Shows] using h

lemma Framed.shows (h : Framed t s) (ht : IsPlain t) : Shows s t := by
  obtain ⟨start, stop, hstart, hstop, rfl | ⟨line, rfl, rfl⟩⟩ := h
  · simpa using (hstart.shows.append (.refl ht)).append hstop.shows
  · obtain ⟨hline, -⟩ := isPlain_append.1 ht
    simpa using ((hstart.shows.append (.refl hline)).append hstop.shows).append shows_feed

end Style

section Lawful

variable {painter : Painter} {t : String}

lemma Painter.Lawful.shows_paint (hpainter : painter.Lawful) (style : Style) (ht : IsPlain t) :
    Shows (style.paint painter true t) (style.paint painter false t) := by
  rw [paint, paint, hpainter.print_off]
  exact (hpainter.print_on _ _).shows ht

lemma Painter.Lawful.shows_paintLine (hpainter : painter.Lawful) (style : Style)
    (ht : IsPlain t) :
    Shows (style.paintLine painter true t) (style.paintLine painter false t) := by
  rw [paintLine, paintLine, hpainter.printLine_off]
  exact (hpainter.printLine_on _ _).shows (isPlain_append.2 ⟨ht, by decide⟩)

end Lawful

/-! ## Reports -/

/-- The texts that a diagnostic is made of: message, code, help and notes, what its labels say
and the files it names. -/
def Diagnostic.texts (d : Diagnostic) : List String :=
  [d.message, d.code, d.help, d.file] ++ d.notes ++
    d.labels.flatMap fun label => label.message :: (label.location.map Location.fileName).toList

lemma Diagnostic.isPlain_fileAt {d : Diagnostic} {label : Label} {l : Location}
    (hd : ∀ text ∈ d.texts, Style.IsPlain text) (hlabel : label ∈ d.labels)
    (hl : label.location = some l) : Style.IsPlain (d.fileAt l) := by
  unfold fileAt
  split
  · refine hd _ (List.mem_append_right _ (List.mem_flatMap.2 ⟨label, hlabel, ?_⟩))
    simp [hl]
  · exact hd _ (by simp [texts])

namespace Sources

/-- The lines of registered texts have no escape characters. -/
def IsPlain (s : Sources) : Prop :=
  ∀ path text, s.registered.lookup path = some text → ∀ line ∈ Source.lines text, Style.IsPlain line

/-- The text of the file is registered, or the file cannot be read. -/
def Settles (s : Sources) (path : String) : Prop :=
  (s.registered.lookup path).isSome = true ∨ s.lines? path = none

instance (s : Sources) (path : String) : Decidable (s.Settles path) :=
  inferInstanceAs (Decidable (_ ∨ _))

/-- Only lines of registered texts are quoted. -/
lemma isPlain_of_line? {s : Sources} {path line : String} {n : Int} (hs : s.IsPlain)
    (hpath : s.Settles path) (hline : s.line? path n = some line) : Style.IsPlain line := by
  obtain ⟨ls, hls, hline⟩ := Option.bind_eq_some_iff.1 hline
  have hmem : line ∈ ls := by
    split at hline
    · exact List.mem_of_getElem? hline
    · cases hline
  obtain hpath | hpath := hpath
  · obtain ⟨text, htext⟩ := Option.isSome_iff_exists.1 hpath
    simp only [lines?, htext, Option.some.injEq] at hls
    exact hs path text htext line (hls ▸ hmem)
  · simp [hpath] at hls

end Sources

namespace Report

variable {painter : Painter} {sources : Sources} {d : Diagnostic} {label : Label}

@[simp] lemma isPlain_blanks (n : Nat) : IsPlain (blanks n) := isPlain_replicate (by decide) n

variable (hpainter : painter.Lawful)

include hpainter

lemma shows_headline (hd : ∀ text ∈ d.texts, IsPlain text) :
    Shows (headline painter true d) (headline painter false d) := by
  have hname : IsPlain d.severity.name := by cases d.severity <;> decide
  have hmessage : IsPlain d.message := hd _ (by simp [Diagnostic.texts])
  have hcode : IsPlain (if d.code = "" then "" else "[" ++ d.code ++ "]") := by
    have hcode : IsPlain d.code := hd _ (by simp [Diagnostic.texts])
    split
    · decide
    · simp +decide [hcode]
  exact (((hpainter.shows_paint _ hname).append (.refl hcode)).append (.refl (by decide))).append
    (hpainter.shows_paintLine _ hmessage)

section Labels

variable {severity : Severity} {width : Nat} {start : Position} {stop : Option Position}

lemma shows_underline (hmessage : IsPlain label.message) :
    Shows (underline painter true severity label start stop)
      (underline painter false severity label start stop) := by
  have hmessage' : IsPlain (" " ++ label.message) := by simp +decide [hmessage]
  have hmark (n : Nat) :
      (if label.isPrimary then (if 1 < n then '~' else '^') else '-') ≠ '\x1b' := by
    split
    · split <;> decide
    · decide
  exact ((Shows.refl (isPlain_blanks _)).append
    (hpainter.shows_paint _ (isPlain_replicate (hmark _) _))).append
    (.ite .empty (hpainter.shows_paint _ hmessage'))

lemma shows_quotation {line : Option String} (hmessage : IsPlain label.message)
    (hline : ∀ text ∈ line, IsPlain text) :
    Shows (quotation painter true severity width label start stop line)
      (quotation painter false severity width label start stop line) := by
  have hblanks : Shows (blanks width) (blanks width) := .refl (isPlain_blanks _)
  have hbar := hpainter.shows_paint .grey (by decide : IsPlain " | ")
  cases line with
  | none => exact .ite .empty (((hblanks.append hbar).append (.refl hmessage)).append shows_feed)
  | some text =>
    have hnumber : IsPlain (padded width start.line ++ " | ") := by simp +decide [padded]
    have hempty := hpainter.shows_paintLine .grey (by decide : IsPlain " |")
    have hquoted := ((hblanks.append hempty).append (hpainter.shows_paint .grey hnumber)).append
      (.refl (hline text rfl))
    exact ((((hquoted.append shows_feed).append hblanks).append hbar).append
      (shows_underline hpainter hmessage)).append shows_feed

/-- A label is shown under the place that it points at. -/
lemma shows_labelText (width : Nat) (hd : ∀ text ∈ d.texts, IsPlain text)
    (hsources : sources.IsPlain) (hlabel : label ∈ d.labels)
    (hfile : ∀ l ∈ label.location, sources.Settles (d.fileAt l)) :
    Shows (labelText painter true sources d width label)
      (labelText painter false sources d width label) := by
  have hmessage : IsPlain label.message :=
    hd _ (List.mem_append_right _ (List.mem_flatMap.2 ⟨label, hlabel, List.mem_cons_self⟩))
  unfold labelText
  cases hplace : label.location.bind fun l => l.start.map fun start => (l, start) with
  | none => exact .empty
  | some place =>
    obtain ⟨l, hl, hstart⟩ := Option.bind_eq_some_iff.1 hplace
    obtain ⟨start, -, rfl⟩ := Option.map_eq_some_iff.1 hstart
    have hpath := Diagnostic.isPlain_fileAt hd hlabel hl
    have hplace : IsPlain (blanks width ++ "--> " ++ d.fileAt l ++ ":" ++ start.text ++ "\n") := by
      simp +decide [hpath, Position.text]
    exact (hpainter.shows_paint _ hplace).append (shows_quotation hpainter hmessage
      fun line hline => Sources.isPlain_of_line? hsources (hfile l hl) hline)

end Labels

lemma shows_render (hd : ∀ text ∈ d.texts, IsPlain text) (hsources : sources.IsPlain)
    (hfiles : ∀ label ∈ d.labels, ∀ l ∈ label.location, sources.Settles (d.fileAt l)) :
    Shows (render painter true sources d) (render painter false sources d) := by
  have hblanks : Shows (blanks (gutterWidth d)) (blanks (gutterWidth d)) :=
    .refl (isPlain_blanks _)
  have hlabels := Shows.join d.labels fun label hlabel =>
    shows_labelText hpainter (gutterWidth d) hd hsources hlabel (hfiles label hlabel)
  have hnotes := Shows.join d.notes fun note hnote =>
    ((hblanks.append (hpainter.shows_paint .cyan (by decide : IsPlain " = note: "))).append
      (.refl (hd note (by simp [Diagnostic.texts, hnote])))).append shows_feed
  have hhelp := ((hblanks.append
    (hpainter.shows_paint .green (by decide : IsPlain " = help: "))).append
      (.refl (hd d.help (by simp [Diagnostic.texts])))).append shows_feed
  exact ((((shows_headline hpainter hd).append hlabels).append hnotes).append
    (.ite .empty hhelp)).append shows_feed

lemma shows_summary (ds : List Diagnostic) :
    Shows (summary painter true ds) (summary painter false ds) := by
  have hfailed (n : Nat) : IsPlain ("\nAnalysis failed with " ++ toString n ++ " error(s)") := by
    simp +decide
  have hwarned (n : Nat) : IsPlain (" and " ++ toString n ++ " warning(s)") := by simp +decide
  have hsucceeded (n : Nat) :
      IsPlain ("\nAnalysis succeeded with " ++ toString n ++ " warning(s)\n") := by simp +decide
  have hwarning (n : Nat) := hpainter.shows_paint .red (hwarned n)
  exact .ite (((hpainter.shows_paint _ (hfailed _)).append (.ite (hwarning _) .empty)).append
    shows_feed) (.ite (hpainter.shows_paint _ (hsucceeded _)) .empty)

omit hpainter

/-- A report in colour is the report without colour, but for the escape sequences. -/
theorem colour_only_decorates (painter : Painter) (hpainter : painter.Lawful)
    (sources : Sources) (ds : List Diagnostic)
    (htexts : ∀ d ∈ ds, ∀ text ∈ d.texts, IsPlain text) (hsources : sources.IsPlain)
    (hfiles : ∀ d ∈ ds, ∀ label ∈ d.labels, ∀ l ∈ label.location, sources.Settles (d.fileAt l)) :
    strip (renderAll painter true sources ds) = renderAll painter false sources ds := by
  have hdiagnostics := Shows.join ds fun d hd =>
    shows_render hpainter (htexts d hd) hsources (hfiles d hd)
  exact (hdiagnostics.append (shows_summary hpainter ds)).strip_eq

/-! ## The painter for terminals -/

lemma isSequence_sequence (codes : List Nat) : IsSequence (Painter.sequence codes) := by
  refine ⟨(";".intercalate (codes.map toString)).toList, fun x hx => ?_, ?_⟩
  · rw [String.toList_intercalate] at hx
    induction codes with
    | nil => simp at hx
    | cons n codes ih =>
      cases codes with
      | nil =>
        have hx : x ∈ n.repr.toList := by simpa using hx
        exact .inl (isDigit_of_mem_repr hx)
      | cons m codes =>
        simp only [List.map_cons, List.intercalate_cons_cons, List.mem_append] at hx ih
        obtain (hx | hx) | hx := hx
        · exact .inl (isDigit_of_mem_repr hx)
        · exact .inr (by simpa using hx)
        · exact ih hx
  · rw [String.ofList_toList, Painter.sequence]

/-- The painter for terminals does what painters are asked for. -/
lemma lawful_terminal : Painter.terminal.Lawful where
  print_off _ _ := rfl
  print_on _ _ := ⟨_, _, isSequence_sequence _, isSequence_sequence _, .inl rfl⟩
  printLine_off _ _ := rfl
  printLine_on _ text :=
    ⟨_, _, isSequence_sequence _, isSequence_sequence _, .inr ⟨text, rfl, rfl⟩⟩

/-- Two diagnostics with texts that look like the rest of an escape sequence. The first points
into a text that is registered, the second into a file that does not exist. -/
def bracketed : List Diagnostic :=
  [(Diagnostic.error "[31m").withCode "0m"
      |>.withPrimary "m.te" (some (.span 2 1 5)) "m"
      |>.withNote "[0m"
      |>.withHelp "1;2m",
    (Diagnostic.warning "[[m").withPrimary ""
      (some { start := some ⟨3, 1⟩, file := some "gone.te" }) ";m"]

def bracketedSources : Sources where
  registered := [("m.te", "let x = 1\r\nx[0m()")]

/-- The brackets and letters stay, the sequences around them go. -/
theorem bracketed_decorated :
    Painter.terminal.Lawful ∧
    (∀ d ∈ bracketed, ∀ text ∈ d.texts, IsPlain text) ∧ bracketedSources.IsPlain ∧
    (∀ d ∈ bracketed, ∀ label ∈ d.labels, ∀ l ∈ label.location,
      bracketedSources.Settles (d.fileAt l)) ∧
    renderAll .terminal true bracketedSources bracketed ≠
      renderAll .terminal false bracketedSources bracketed ∧
    strip (renderAll .terminal true bracketedSources bracketed) =
      renderAll .terminal false bracketedSources bracketed := by
  have htexts : ∀ d ∈ bracketed, ∀ text ∈ d.texts, IsPlain text := by decide +kernel
  have hsources : bracketedSources.IsPlain := by
    intro path text htext
    obtain rfl : "let x = 1\r\nx[0m()" = text := by
      simp only [bracketedSources, List.lookup_cons, List.lookup_nil] at htext
      split at htext
      · exact Option.some.inj htext
      · cases htext
    decide +kernel
  have hfiles : ∀ d ∈ bracketed, ∀ label ∈ d.labels, ∀ l ∈ label.location,
      bracketedSources.Settles (d.fileAt l) := by decide +kernel
  exact ⟨lawful_terminal, htexts, hsources, hfiles, by decide +kernel,
    colour_only_decorates .terminal lawful_terminal bracketedSources bracketed htexts hsources
      hfiles⟩

end Report

end TypedScript
