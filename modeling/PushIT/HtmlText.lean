import PushIT.ExchangeService
import PushIT.Library.Paragraphs

/-!
# The text of an HTML mail

`html_to_text` of `applications/graph_mail.py`: the handlers collect parts from what `html.parser`
reports, and the text of the parts is laid out again.  The blocks of a mail end with line breaks,
which look at the last parts only; what stands before a block and what follows it are still laid
out as they would be alone.

## Main definitions

* `HtmlToText.step`: the handlers.
* `plainText`: the layout.
* `paragraphs`, `visibleLines`: what a reader sees of a text.

## Main results

* `html_text_laid_out`: the text of a mail is laid out in its paragraphs, with all its words.
* `blocks_compose`: a block divides a mail in two.
* `hidden_elements_vanish`: what stands in a hidden element is left out.
-/

namespace PushIT

open Runs Paragraphs

/-! ### The handlers -/

/-- What `html.parser` reports; the attributes of a tag are not used. -/
inductive HtmlEvent
  | startTag (tag : String)
  | startEndTag (tag : String)
  | endTag (tag : String)
  | data (text : List Char)
  deriving DecidableEq, Repr

/-- `_BLOCK_TAGS`. -/
def blockTags : List String :=
  ["address", "article", "blockquote", "br", "dd", "div", "dl", "dt", "footer",
    "h1", "h2", "h3", "h4", "h5", "h6", "header", "hr", "li", "ol", "p", "pre",
    "section", "table", "tr", "ul"]

/-- `_SKIP_TAGS`. -/
def skipTags : List String := ["script", "style", "head", "title", "noscript", "template"]

/-- `_HTMLToText`. -/
structure HtmlToText where
  parts : List (List Char) := []
  skipDepth : ℕ := 0
  deriving DecidableEq, Repr

/-- The characters `_break` looks past. -/
def isBlank (c : Char) : Bool := c == ' ' || c == '\t'

/-- How many line breaks end a text, blanks after them aside. -/
def breaksAtEnd (cs : List Char) : ℕ :=
  let tail := cs.rdropWhile isBlank
  tail.length - (tail.rdropWhile (· == '\n')).length

/-- How many line breaks `_break` finds at the end. -/
def trailingBreaks (parts : List (List Char)) : ℕ := breaksAtEnd (parts.rtake 4).flatten

namespace HtmlToText

variable (s : HtmlToText)

/-- `text`. -/
def text : List Char := s.parts.flatten

/-- `_parts.append`. -/
def append (part : List Char) : HtmlToText := { s with parts := s.parts ++ [part] }

/-- `_break`. -/
def breakLines (lines : ℕ) : HtmlToText :=
  let missing := lines - trailingBreaks s.parts
  if s.parts ≠ [] ∧ 0 < missing then s.append (List.replicate missing '\n') else s

/-- `handle_starttag`. -/
def handleStarttag (tag : String) : HtmlToText :=
  if tag ∈ skipTags then { s with skipDepth := s.skipDepth + 1 }
  else if tag = "br" then s.append ['\n']
  else if tag ∈ blockTags then
    if tag = "li" then (s.breakLines 1).append ['-', ' '] else s.breakLines 1
  else s

/-- `handle_startendtag`. -/
def handleStartendtag (tag : String) : HtmlToText :=
  if tag ∈ blockTags then s.handleStarttag tag else s

/-- `handle_endtag`. -/
def handleEndtag (tag : String) : HtmlToText :=
  if tag ∈ skipTags then { s with skipDepth := s.skipDepth - 1 }
  else if tag ∈ blockTags ∧ tag ≠ "br" then s.breakLines (if tag = "p" then 2 else 1)
  else s

/-- `handle_data`. -/
def handleData (data : List Char) : HtmlToText :=
  if s.skipDepth = 0 then s.append data else s

def step : HtmlEvent → HtmlToText
  | .startTag tag => s.handleStarttag tag
  | .startEndTag tag => s.handleStartendtag tag
  | .endTag tag => s.handleEndtag tag
  | .data data => s.handleData data

/-- `feed`, after which the parser is closed. -/
def feed (events : List HtmlEvent) : HtmlToText := events.foldl step s

end HtmlToText

/-! ### The layout -/

/-- `str.splitlines`; the first character of a line break of two is passed over. -/
def splitlines : List Char → List (List Char)
  | [] => []
  | c :: cs =>
    if c = '\r' ∧ cs.head? = some '\n' then splitlines cs
    else if isLineBreak c then [] :: splitlines cs
    else
      match splitlines cs with
      | [] => [[c]]
      | line :: lines => (c :: line) :: lines

/-- `re.sub(r"\n{3,}", "\n\n", text)`: of three line feeds or more in a row, two are left. -/
def collapseBlankLines (cs : List Char) : List Char := capRuns '\n' 2 2 cs

/-- The text `html_to_text` makes of the text of the parser. -/
def plainText (text : List Char) : List Char :=
  collapseBlankLines (Ends.trim isPythonSpace (['\n'].intercalate ((splitlines text).map collapse)))

/-- `html_to_text`, on what the parser reports of the content. -/
def htmlToText (events : List HtmlEvent) : String :=
  String.ofList (plainText (({} : HtmlToText).feed events).text)

/-- The paragraphs of a text, each a list of lines. -/
def paragraphs (text : List Char) : List (List (List Char)) :=
  runs List.isEmpty ((splitlines text).map collapse)

/-- The lines of a text that are not blank. -/
def visibleLines (text : List Char) : List (List Char) := (paragraphs text).flatten

/-! ### Lines -/

theorem isPythonSpace_of_isLineBreak {c : Char} (h : isLineBreak c = true) :
    isPythonSpace c = true := by
  simp only [isLineBreak, Bool.or_eq_true, Bool.and_eq_true, decide_eq_true_eq, beq_iff_eq] at h
  simp only [isPythonSpace, Bool.or_eq_true, Bool.and_eq_true, decide_eq_true_eq, beq_iff_eq]
  omega

theorem eq_of_isBlank {c : Char} (h : isBlank c = true) : c = ' ' ∨ c = '\t' := by
  simpa [isBlank] using h

theorem isPythonSpace_of_isBlank {c : Char} (h : isBlank c = true) : isPythonSpace c = true := by
  obtain rfl | rfl := eq_of_isBlank h <;> decide

theorem isLineBreak_of_isBlank {c : Char} (h : isBlank c = true) : isLineBreak c = false := by
  obtain rfl | rfl := eq_of_isBlank h <;> decide

section Collapsing

variable {c : Char} {cs : List Char}

theorem collapse_eq (cs : List Char) :
    collapse cs = [' '].intercalate (runs isPythonSpace cs) := rfl

@[simp]
theorem collapse_nil : collapse [] = [] := rfl

theorem collapse_cons (hc : isPythonSpace c = true) : collapse (c :: cs) = collapse cs := by
  rw [collapse_eq, runs_cons hc, collapse_eq]

theorem collapse_eq_nil (h : ∀ c ∈ cs, isPythonSpace c = true) : collapse cs = [] := by
  have hnil : runs isPythonSpace cs = [] := by
    simpa using runs_append_blank (l := []) h
  rw [collapse_eq, hnil]
  rfl

theorem runs_collapse (cs : List Char) :
    runs isPythonSpace (collapse cs) = runs isPythonSpace cs :=
  runs_intercalate (by decide) fun _ hr => mem_runs hr

theorem collapse_collapse (cs : List Char) : collapse (collapse cs) = collapse cs := by
  rw [collapse_eq, runs_collapse, collapse_eq]

/-- A collapsed line has no line break. -/
theorem isLineBreak_of_mem_collapse (h : c ∈ collapse cs) : isLineBreak c = false := by
  obtain rfl | ⟨word, hword, hc⟩ := mem_intercalate h
  · decide
  · have hspace := (mem_runs hword).2 c hc
    by_contra hbreak
    rw [isPythonSpace_of_isLineBreak (by simpa using hbreak)] at hspace
    exact Bool.false_ne_true hspace.symm

/-- A collapsed line has no space at its ends. -/
theorem trimmed_collapse (cs : List Char) : Ends.Trimmed isPythonSpace (collapse cs) :=
  trimmed_intercalate fun _ hr => mem_runs hr

end Collapsing

section Lines

variable {c : Char} {cs line u v w blank : List Char} {ls : List (List Char)}

theorem splitlines_break (hc : isLineBreak c = true) (hpair : ¬(c = '\r' ∧ cs.head? = some '\n')) :
    splitlines (c :: cs) = [] :: splitlines cs := by
  rw [splitlines, if_neg hpair, if_pos hc]

theorem splitlines_pair (hpair : c = '\r' ∧ cs.head? = some '\n') :
    splitlines (c :: cs) = splitlines cs := by
  rw [splitlines, if_pos hpair]

theorem splitlines_feed : splitlines ('\n' :: cs) = [] :: splitlines cs :=
  splitlines_break (by decide) (by simp)

theorem splitlines_char (hc : isLineBreak c = false) :
    splitlines (c :: cs) =
      match splitlines cs with
      | [] => [[c]]
      | line :: lines => (c :: line) :: lines := by
  have hpair : ¬(c = '\r' ∧ cs.head? = some '\n') := by
    rintro ⟨rfl, -⟩
    exact absurd hc (by decide)
  rw [splitlines, if_neg hpair, if_neg (by simp [hc])]

theorem splitlines_ne_nil (hne : cs ≠ []) : splitlines cs ≠ [] := by
  induction cs with
  | nil => exact absurd rfl hne
  | cons c cs ih =>
    by_cases hpair : c = '\r' ∧ cs.head? = some '\n'
    · rw [splitlines_pair hpair]
      refine ih ?_
      rintro rfl
      simp at hpair
    · cases hc : isLineBreak c with
      | true => simp [splitlines_break hc hpair]
      | false =>
        rw [splitlines_char hc]
        cases splitlines cs <;> simp

/-- A line without breaks, and what follows it. -/
theorem splitlines_line (h : ∀ c ∈ line, isLineBreak c = false) :
    splitlines (line ++ '\n' :: cs) = line :: splitlines cs := by
  induction line with
  | nil => exact splitlines_feed
  | cons c line ih =>
    rw [List.cons_append, splitlines_char (h c List.mem_cons_self),
      ih fun d hd => h d (List.mem_cons_of_mem c hd)]

theorem splitlines_last (h : ∀ c ∈ line, isLineBreak c = false) (hne : line ≠ []) :
    splitlines line = [line] := by
  induction line with
  | nil => exact absurd rfl hne
  | cons c line ih =>
    rw [splitlines_char (h c List.mem_cons_self)]
    cases line with
    | nil => rfl
    | cons d line => rw [ih (fun e he => h e (List.mem_cons_of_mem c he)) (List.cons_ne_nil d line)]

/-- A line without breaks, and any break. -/
theorem splitlines_line_break (h : ∀ c ∈ line, isLineBreak c = false) (hc : isLineBreak c = true) :
    splitlines (line ++ c :: cs) = line :: splitlines cs ∨
      ∃ rest, cs = '\n' :: rest ∧ splitlines (line ++ c :: cs) = line :: splitlines rest := by
  induction line with
  | nil =>
    by_cases hpair : c = '\r' ∧ cs.head? = some '\n'
    · obtain ⟨rest, rfl⟩ : ∃ rest, cs = '\n' :: rest := by
        cases cs with
        | nil => simp at hpair
        | cons d rest => exact ⟨rest, by rw [Option.some.inj hpair.2]⟩
      exact Or.inr ⟨rest, rfl, by rw [List.nil_append, splitlines_pair hpair, splitlines_feed]⟩
    · exact Or.inl (by rw [List.nil_append, splitlines_break hc hpair])
  | cons d line ih =>
    have hd := h d List.mem_cons_self
    refine (ih fun e he => h e (List.mem_cons_of_mem d he)).imp (fun heq => ?_) ?_
    · rw [List.cons_append, splitlines_char hd, heq]
    · rintro ⟨rest, rfl, heq⟩
      exact ⟨rest, rfl, by rw [List.cons_append, splitlines_char hd, heq]⟩

/-- Joined lines are found again. -/
theorem splitlines_intercalate (h : ∀ line ∈ ls, ∀ c ∈ line, isLineBreak c = false)
    (hlast : ∀ line ∈ ls.getLast?, line ≠ []) : splitlines (['\n'].intercalate ls) = ls := by
  induction ls with
  | nil => rfl
  | cons line ls ih =>
    obtain ⟨hline, hls⟩ := List.forall_mem_cons.mp h
    cases ls with
    | nil => rw [List.intercalate_singleton, splitlines_last hline (hlast line rfl)]
    | cons next ls =>
      rw [intercalate_cons_ne_nil (List.cons_ne_nil next ls), splitlines_line hline,
        ih hls (by simpa using hlast)]

/-- A line feed ends the line before it, which may be blank. -/
theorem splitlines_append_feed (u v : List Char) :
    ∃ ends, (ends = [] ∨ ends = [[]]) ∧
      splitlines (u ++ '\n' :: v) = splitlines u ++ ends ++ splitlines v := by
  induction u with
  | nil => exact ⟨[[]], Or.inr rfl, splitlines_feed⟩
  | cons c u ih =>
    obtain ⟨ends, hends, hu⟩ := ih
    rw [List.cons_append]
    cases u with
    | nil =>
      by_cases hr : c = '\r'
      · subst hr
        refine ⟨[], Or.inl rfl, ?_⟩
        rw [List.nil_append, splitlines_pair ⟨rfl, rfl⟩, splitlines_feed]
        rfl
      · cases hc : isLineBreak c with
        | true =>
          refine ⟨[[]], Or.inr rfl, ?_⟩
          rw [List.nil_append, splitlines_break hc (by simp [hr]), splitlines_feed,
            splitlines_break hc (by simp)]
          rfl
        | false =>
          refine ⟨[], Or.inl rfl, ?_⟩
          rw [List.nil_append, splitlines_char hc, splitlines_feed, splitlines_char hc]
          rfl
    | cons d u =>
      refine ⟨ends, hends, ?_⟩
      by_cases hpair : c = '\r' ∧ (d :: u).head? = some '\n'
      · rw [splitlines_pair (by simpa using hpair), hu, splitlines_pair hpair]
      · cases hc : isLineBreak c with
        | true =>
          rw [splitlines_break hc (by simpa using hpair), hu, splitlines_break hc hpair]
          rfl
        | false =>
          rw [splitlines_char hc, hu, splitlines_char hc]
          obtain ⟨line, lines, hlines⟩ :=
            List.exists_cons_of_ne_nil (splitlines_ne_nil (List.cons_ne_nil d u))
          rw [hlines]
          rfl

/-- A space in front of a text changes nothing but the blank lines before it. -/
theorem collapse_splitlines_cons (hc : isPythonSpace c = true) (cs : List Char) :
    (splitlines (c :: cs)).map collapse = (splitlines cs).map collapse ∨
      (splitlines (c :: cs)).map collapse = [] :: (splitlines cs).map collapse := by
  by_cases hpair : c = '\r' ∧ cs.head? = some '\n'
  · exact Or.inl (by rw [splitlines_pair hpair])
  · cases hbreak : isLineBreak c with
    | true =>
      rw [splitlines_break hbreak hpair]
      exact Or.inr rfl
    | false =>
      rw [splitlines_char hbreak]
      cases splitlines cs with
      | nil => exact Or.inr (by simp [collapse_cons hc])
      | cons line lines => exact Or.inl (by simp [collapse_cons hc])

/-! ### Paragraphs -/

@[simp]
theorem paragraphs_nil : paragraphs [] = [] := rfl

@[simp]
theorem visibleLines_nil : visibleLines [] = [] := rfl

theorem paragraphs_blank_append (h : ∀ c ∈ blank, isPythonSpace c = true) (cs : List Char) :
    paragraphs (blank ++ cs) = paragraphs cs := by
  induction blank with
  | nil => rfl
  | cons c blank ih =>
    have hrest := ih fun d hd => h d (List.mem_cons_of_mem c hd)
    obtain heq | heq := collapse_splitlines_cons (h c List.mem_cons_self) (blank ++ cs)
    · rw [List.cons_append, paragraphs, heq]
      exact hrest
    · rw [List.cons_append, paragraphs, heq, runs_cons rfl]
      exact hrest

theorem visibleLines_blank_append (h : ∀ c ∈ blank, isPythonSpace c = true) (cs : List Char) :
    visibleLines (blank ++ cs) = visibleLines cs := by
  rw [visibleLines, paragraphs_blank_append h, visibleLines]

theorem visibleLines_eq (cs : List Char) :
    visibleLines cs = ((splitlines cs).map collapse).filter (!List.isEmpty ·) :=
  flatten_runs _

/-- A line feed divides the lines of a text. -/
theorem visibleLines_append_feed (u v : List Char) :
    visibleLines (u ++ '\n' :: v) = visibleLines u ++ visibleLines v := by
  obtain ⟨ends, hends, hsplit⟩ := splitlines_append_feed u v
  rw [visibleLines_eq, hsplit, visibleLines_eq, visibleLines_eq]
  obtain rfl | rfl := hends <;> simp

/-- A blank line divides the paragraphs of a text. -/
theorem paragraphs_append_feed (h : ∀ c ∈ w, isBlank c = true) (u v : List Char) :
    paragraphs (u ++ '\n' :: (w ++ '\n' :: v)) = paragraphs u ++ paragraphs v := by
  obtain ⟨ends, hends, hsplit⟩ := splitlines_append_feed u (w ++ '\n' :: v)
  have hclean : ∀ c ∈ w, isLineBreak c = false := fun c hc => isLineBreak_of_isBlank (h c hc)
  have hspace : ∀ c ∈ w, isPythonSpace c = true := fun c hc => isPythonSpace_of_isBlank (h c hc)
  have hblank : ∀ l ∈ ends.map collapse, List.isEmpty l = true := by
    obtain rfl | rfl := hends <;> simp
  rw [paragraphs, hsplit, splitlines_line hclean, List.map_append, List.map_append, List.map_cons,
    collapse_eq_nil hspace, runs_append_cons rfl, runs_append_blank hblank]
  rfl

theorem paragraphs_append_singleton (u : List Char) : paragraphs (u ++ ['\n']) = paragraphs u := by
  obtain ⟨ends, hends, hsplit⟩ := splitlines_append_feed u []
  have hblank : ∀ l ∈ ends.map collapse, List.isEmpty l = true := by
    obtain rfl | rfl := hends <;> simp
  rw [splitlines, List.append_nil] at hsplit
  rw [paragraphs, hsplit, List.map_append, runs_append_blank hblank, paragraphs]

/-- Line feeds after a text change nothing. -/
theorem paragraphs_append_replicate (u : List Char) (n : ℕ) :
    paragraphs (u ++ List.replicate n '\n') = paragraphs u := by
  induction n with
  | zero => rw [List.replicate_zero, List.append_nil]
  | succ n ih =>
    rw [List.replicate_succ', ← List.append_assoc, paragraphs_append_singleton, ih]

end Lines

/-- The words of a text are those of its lines. -/
theorem runs_splitlines (text : List Char) :
    runs isPythonSpace text = (splitlines text).flatMap (runs isPythonSpace) := by
  induction text using split_induction isLineBreak with
  | plain line h =>
    cases line with
    | nil => simp [splitlines]
    | cons c line => rw [splitlines_last h (List.cons_ne_nil c line), List.flatMap_singleton]
  | split line c cs h hc ih =>
    rw [runs_append_cons (isPythonSpace_of_isLineBreak hc), ih]
    obtain (heq : splitlines (line ++ c :: cs) = _) | ⟨rest, rfl, heq⟩ := splitlines_line_break h hc
    · rw [heq, List.flatMap_cons]
    · rw [heq, splitlines_feed, List.flatMap_cons, List.flatMap_cons, runs_nil, List.nil_append]

/-- The words of a text are those of its visible lines. -/
theorem runs_visibleLines (text : List Char) :
    runs isPythonSpace text = (visibleLines text).flatMap (runs isPythonSpace) := by
  rw [runs_splitlines, visibleLines_eq]
  induction splitlines text with
  | nil => rfl
  | cons line lines ih =>
    rw [List.flatMap_cons, ih, List.map_cons]
    cases hblank : (collapse line).isEmpty with
    | true =>
      rw [List.filter_cons_of_neg (by simp [hblank]), ← runs_collapse line,
        List.isEmpty_iff.mp hblank, runs_nil, List.nil_append]
    | false =>
      rw [List.filter_cons_of_pos (by simp [hblank]), List.flatMap_cons, runs_collapse]

/-- The layout of a text is that of its paragraphs, which are found again in it. -/
theorem plainText_eq (text : List Char) : plainText text = layOut '\n' (paragraphs text) := by
  refine capRuns_trim (by decide) ?_ ?_
  · simp only [List.mem_map]
    rintro l ⟨line, -, rfl⟩ hmem
    exact absurd (isLineBreak_of_mem_collapse hmem) (by decide)
  · simp only [List.mem_map]
    rintro l ⟨line, -, rfl⟩
    exact trimmed_collapse line

/-- A line of a paragraph is collapsed, and not blank. -/
theorem mem_paragraphs {text : List Char} {lines : List (List Char)} (h : lines ∈ paragraphs text) :
    lines ≠ [] ∧ ∀ line ∈ lines, line ≠ [] ∧ ∃ cs, line = collapse cs := by
  refine ⟨(mem_runs h).1, fun line hline => ⟨?_, ?_⟩⟩
  · simpa using (mem_runs h).2 line hline
  · have hmem : line ∈ visibleLines text := List.mem_flatten.mpr ⟨lines, h, hline⟩
    rw [visibleLines_eq] at hmem
    obtain ⟨cs, -, rfl⟩ := List.mem_map.mp (List.mem_filter.mp hmem).1
    exact ⟨cs, rfl⟩

/-- The lines of the paragraphs, with a blank one between them, are collapsed. -/
theorem mem_intercalate_paragraphs {text line : List Char}
    (h : line ∈ [[]].intercalate (paragraphs text)) : ∃ cs, line = collapse cs := by
  obtain rfl | ⟨lines, hlines, hline⟩ := mem_intercalate h
  · exact ⟨[], rfl⟩
  · exact ((mem_paragraphs hlines).2 line hline).2

/-- The layout of a text has the paragraphs of the text. -/
theorem paragraphs_plainText (text : List Char) :
    paragraphs (plainText text) = paragraphs text := by
  have hps : ∀ lines ∈ paragraphs text, lines ≠ [] := fun _ h => (mem_paragraphs h).1
  have hlines : splitlines (plainText text) = [[]].intercalate (paragraphs text) := by
    rw [plainText_eq, layOut_eq hps]
    refine splitlines_intercalate (fun line hline c hc => ?_) fun line hline => ?_
    · obtain ⟨cs, rfl⟩ := mem_intercalate_paragraphs hline
      exact isLineBreak_of_mem_collapse hc
    · simpa using (trimmed_intercalate fun _ h => mem_runs h).last line hline
  have hcollapsed : ([[]].intercalate (paragraphs text)).map collapse =
      [[]].intercalate (paragraphs text) := by
    refine (List.map_congr_left fun line hline => ?_).trans (List.map_id _)
    obtain ⟨cs, rfl⟩ := mem_intercalate_paragraphs hline
    exact collapse_collapse cs
  rw [paragraphs, hlines, hcollapsed]
  exact runs_intercalate rfl fun _ h => mem_runs h

/-- The layout of a text has no space at its ends. -/
theorem trimmed_plainText (text : List Char) : Ends.Trimmed isPythonSpace (plainText text) := by
  rw [plainText_eq, layOut_eq fun _ h => (mem_paragraphs h).1]
  refine trimmed_lines (trimmed_intercalate fun _ h => mem_runs h) fun line hline => ?_
  obtain ⟨cs, rfl⟩ := mem_intercalate_paragraphs hline
  exact trimmed_collapse cs

/-- The text of a mail is laid out in its paragraphs: they can be read off it, with all words of
the parser's text in their order, and nothing is left to lay out or to trim. -/
theorem html_text_laid_out (events : List HtmlEvent) :
    let source := (({} : HtmlToText).feed events).text
    let result := (htmlToText events).toList
    result = layOut '\n' (paragraphs source) ∧ paragraphs result = paragraphs source ∧
      runs isPythonSpace result = runs isPythonSpace source ∧ plainText result = result ∧
      strip (htmlToText events) = htmlToText events := by
  intro source result
  have hresult : result = plainText source := String.toList_ofList
  have hparagraphs : paragraphs result = paragraphs source := by
    rw [hresult, paragraphs_plainText]
  refine ⟨by rw [hresult, plainText_eq], hparagraphs, ?_, ?_, ?_⟩
  · rw [runs_visibleLines, visibleLines, hparagraphs, runs_visibleLines source, visibleLines]
  · rw [plainText_eq, hparagraphs, hresult, plainText_eq]
  · rw [strip_eq_self_iff]
    change Ends.Trimmed isPythonSpace result
    rw [hresult]
    exact trimmed_plainText source

/-! ### Line breaks at the end -/

/-- A text of blanks. -/
def Blank (cs : List Char) : Prop := ∀ c ∈ cs, isBlank c = true

/-- A text that ends with so many line feeds, with nothing but blanks after each. -/
def EndsWithBreaks : ℕ → List Char → Prop
  | 0, _ => True
  | n + 1, cs => ∃ u w, cs = u ++ '\n' :: w ∧ Blank w ∧ EndsWithBreaks n u

namespace EndsWithBreaks

variable {n : ℕ} {cs w : List Char}

theorem pred (h : EndsWithBreaks (n + 1) cs) : EndsWithBreaks n cs := by
  induction n generalizing cs with
  | zero => trivial
  | succ n ih =>
    obtain ⟨u, w, rfl, hw, hu⟩ := h
    exact ⟨u, w, rfl, hw, ih hu⟩

theorem mono {m : ℕ} (hle : m ≤ n) (h : EndsWithBreaks n cs) : EndsWithBreaks m cs := by
  induction n, hle using Nat.le_induction with
  | base => exact h
  | succ n _ ih => exact ih h.pred

theorem append_blank (h : EndsWithBreaks n cs) (hw : Blank w) : EndsWithBreaks n (cs ++ w) := by
  cases n with
  | zero => trivial
  | succ n =>
    obtain ⟨u, v, rfl, hv, hu⟩ := h
    exact ⟨u, v ++ w, by simp, fun c hc => (List.mem_append.mp hc).elim (hv c) (hw c), hu⟩

theorem append_replicate (h : EndsWithBreaks n cs) (m : ℕ) :
    EndsWithBreaks (n + m) (cs ++ List.replicate m '\n') := by
  induction m with
  | zero => simpa using h
  | succ m ih =>
    refine ⟨cs ++ List.replicate m '\n', [], ?_, by simp [Blank], ih⟩
    rw [List.replicate_succ', List.append_assoc]

end EndsWithBreaks

section Endings

variable {cs v : List Char}

theorem Blank.space (h : Blank cs) : ∀ c ∈ cs, isPythonSpace c = true := fun c hc =>
  isPythonSpace_of_isBlank (h c hc)

/-- A text that ends with a line break is divided there. -/
theorem visibleLines_append (h : EndsWithBreaks 1 cs) (v : List Char) :
    visibleLines (cs ++ v) = visibleLines cs ++ visibleLines v := by
  obtain ⟨u, w, rfl, hw, -⟩ := h
  have hline : ∀ v, visibleLines (u ++ '\n' :: w ++ v) = visibleLines u ++ visibleLines v := by
    intro v
    rw [List.append_assoc, List.cons_append, visibleLines_append_feed,
      visibleLines_blank_append hw.space]
  have halone := hline []
  rw [List.append_nil] at halone
  rw [hline, halone, List.append_assoc, visibleLines_nil, List.nil_append]

/-- A text that ends with a blank line is divided there. -/
theorem paragraphs_append (h : EndsWithBreaks 2 cs) (v : List Char) :
    paragraphs (cs ++ v) = paragraphs cs ++ paragraphs v := by
  obtain ⟨_, w, rfl, hw, u, w', rfl, hw', -⟩ := h
  have hline : ∀ v, paragraphs (u ++ '\n' :: w' ++ '\n' :: w ++ v) =
      paragraphs u ++ paragraphs v := by
    intro v
    rw [List.append_assoc, List.append_assoc, List.cons_append, List.cons_append,
      paragraphs_append_feed hw', paragraphs_blank_append hw.space]
  have halone := hline []
  rw [List.append_nil] at halone
  rw [hline, halone, List.append_assoc, paragraphs_nil, List.nil_append]

end Endings

/-- The line breaks that `_break` finds are there. -/
theorem endsWithBreaks_trailingBreaks (parts : List (List Char)) :
    EndsWithBreaks (trailingBreaks parts) parts.flatten := by
  let tail := (parts.rtake 4).flatten.rdropWhile isBlank
  have hblank : Blank ((parts.rtake 4).flatten.rtakeWhile isBlank) := fun c hc =>
    List.mem_rtakeWhile_imp hc
  have htail :
      tail.rdropWhile (· == '\n') ++ List.replicate (trailingBreaks parts) '\n' = tail := by
    have hfeeds : tail.rtakeWhile (· == '\n') = List.replicate (trailingBreaks parts) '\n' := by
      refine List.eq_replicate_iff.mpr ⟨?_, fun c hc => by simpa using List.mem_rtakeWhile_imp hc⟩
      have hlength := congrArg List.length
        (List.rdropWhile_append_rtakeWhile (p := (· == '\n')) (l := tail))
      rw [List.length_append] at hlength
      exact Nat.eq_sub_of_add_eq' hlength
    rw [← hfeeds, List.rdropWhile_append_rtakeWhile]
  have hparts : parts.rdrop 4 ++ parts.rtake 4 = parts := List.take_append_drop _ parts
  have hall : parts.flatten = (parts.rdrop 4).flatten ++ tail.rdropWhile (· == '\n') ++
      List.replicate (trailingBreaks parts) '\n' ++ (parts.rtake 4).flatten.rtakeWhile isBlank := by
    rw [List.append_assoc _ _ (List.replicate _ _), htail, List.append_assoc,
      List.rdropWhile_append_rtakeWhile, ← List.flatten_append, hparts]
  have hnone : EndsWithBreaks 0 ((parts.rdrop 4).flatten ++ tail.rdropWhile (· == '\n')) := trivial
  have hbreaks := hnone.append_replicate (trailingBreaks parts)
  rw [Nat.zero_add] at hbreaks
  rw [hall]
  exact hbreaks.append_blank hblank

namespace HtmlToText

variable {s : HtmlToText}

/-- `_break` leaves at least so many line breaks at the end, and changes nothing but them. -/
theorem text_breakLines (hne : s.parts ≠ []) (lines : ℕ) :
    EndsWithBreaks lines (s.breakLines lines).text ∧
      ∃ m, (s.breakLines lines).text = s.text ++ List.replicate m '\n' := by
  have hends := endsWithBreaks_trailingBreaks s.parts
  rw [breakLines]
  split_ifs with h
  · have hall : (s.append (List.replicate (lines - trailingBreaks s.parts) '\n')).text =
        s.text ++ List.replicate (lines - trailingBreaks s.parts) '\n' := by
      simp [append, text]
    refine ⟨?_, _, hall⟩
    rw [hall]
    exact (hends.append_replicate _).mono (by omega)
  · have hle : lines ≤ trailingBreaks s.parts := by
      by_contra hlt
      exact h ⟨hne, by omega⟩
    exact ⟨hends.mono hle, 0, by simp⟩

end HtmlToText

/-! ### A mail and what follows a block of it -/

/-- A reader sees something of a part. -/
def Shows (part : List Char) : Prop := ∃ c ∈ part, isPythonSpace c = false

theorem rdropWhile_append_of_mem {α : Type*} {p : α → Bool} {front back : List α}
    (h : ∃ a ∈ back, p a = false) : (front ++ back).rdropWhile p = front ++ back.rdropWhile p := by
  obtain ⟨a, ha, hp⟩ := h
  have hne : (back.reverse.dropWhile p).isEmpty = false := by
    rw [Bool.eq_false_iff, ne_eq, List.isEmpty_iff, List.dropWhile_eq_nil_iff]
    exact fun hall => by simp [hall a (List.mem_reverse.mpr ha)] at hp
  rw [List.rdropWhile, List.reverse_append, List.dropWhile_append, hne]
  simp [List.rdropWhile]

/-- What stands before a visible part does not matter to the line breaks after it. -/
theorem breaksAtEnd_append {front back : List Char} (h : Shows back) :
    breaksAtEnd (front ++ back) = breaksAtEnd back := by
  obtain ⟨c, hc, hspace⟩ := h
  have hblank : isBlank c = false := by
    by_contra hblank
    rw [isPythonSpace_of_isBlank (by simpa using hblank)] at hspace
    exact Bool.false_ne_true hspace.symm
  have hfeed : (c == '\n') = false := by
    by_contra hfeed
    obtain rfl : c = '\n' := by simpa using hfeed
    exact absurd hspace (by decide)
  have hleft : c ∈ back.rdropWhile isBlank := by
    rw [← List.rdropWhile_append_rtakeWhile (p := isBlank) (l := back), List.mem_append] at hc
    refine hc.resolve_right fun hmem => ?_
    rw [List.mem_rtakeWhile_imp hmem] at hblank
    exact Bool.false_ne_true hblank.symm
  have htail : (front ++ back).rdropWhile isBlank = front ++ back.rdropWhile isBlank :=
    rdropWhile_append_of_mem ⟨c, hc, hblank⟩
  have hfeeds : (front ++ back.rdropWhile isBlank).rdropWhile (· == '\n') =
      front ++ (back.rdropWhile isBlank).rdropWhile (· == '\n') :=
    rdropWhile_append_of_mem ⟨c, hleft, hfeed⟩
  simp only [breaksAtEnd, htail, hfeeds, List.length_append, Nat.add_sub_add_left]

theorem trailingBreaks_append {part : List Char} (h : Shows part) (front back : List (List Char)) :
    trailingBreaks (front ++ part :: back) = trailingBreaks (part :: back) := by
  by_cases hlength : (part :: back).length ≤ 4
  · obtain ⟨c, hc, hspace⟩ := h
    have hshows : Shows (part :: back).flatten := ⟨c, by simp [hc], hspace⟩
    have hall : (part :: back).drop ((part :: back).length - 4) = part :: back := by
      rw [Nat.sub_eq_zero_of_le hlength, List.drop_zero]
    have hback : (front ++ part :: back).length - 4 - front.length =
        (part :: back).length - 4 := by
      rw [List.length_append]
      omega
    rw [trailingBreaks, trailingBreaks, List.rtake, List.rtake, List.drop_append, hback, hall,
      List.flatten_append, breaksAtEnd_append hshows]
  · have hfront : (front ++ part :: back).length - 4 =
        front.length + ((part :: back).length - 4) := by
      rw [List.length_append]
      omega
    rw [trailingBreaks, trailingBreaks, List.rtake, List.rtake, hfront, List.drop_length_add_append]

theorem not_shows_replicate (n : ℕ) : ¬Shows (List.replicate n '\n') := by
  rintro ⟨c, hc, hspace⟩
  obtain rfl := List.eq_of_mem_replicate hc
  exact absurd hspace (by decide)

namespace HtmlToText

variable {s : HtmlToText}

@[simp]
theorem parts_append (part : List Char) : (s.append part).parts = s.parts ++ [part] := rfl

@[simp]
theorem skipDepth_append (part : List Char) : (s.append part).skipDepth = s.skipDepth := rfl

@[simp]
theorem skipDepth_breakLines (lines : ℕ) : (s.breakLines lines).skipDepth = s.skipDepth := by
  rw [breakLines]
  split_ifs <;> rfl

/-- What `_break` adds is not seen. -/
theorem parts_breakLines (lines : ℕ) :
    ∃ added, (s.breakLines lines).parts = s.parts ++ added ∧ ∀ part ∈ added, ¬Shows part := by
  rw [breakLines]
  split_ifs
  · exact ⟨_, rfl, by simpa using not_shows_replicate _⟩
  · exact ⟨[], by simp, by simp⟩

/-- The parts of the first parser go on after some others as those of the second one do alone, but
for parts of which a reader sees nothing. -/
structure Continues (front : List (List Char)) (s t : HtmlToText) : Prop where
  skipDepth : s.skipDepth = t.skipDepth
  parts : ∃ before before' shared, s.parts = front ++ (before ++ shared) ∧
    t.parts = before' ++ shared ∧ (∀ part ∈ before, ¬Shows part) ∧
    (∀ part ∈ before', ¬Shows part) ∧ ∀ part ∈ shared.head?, Shows part

namespace Continues

variable {front : List (List Char)} {s t : HtmlToText}

theorem append (h : Continues front s t) (part : List Char) :
    Continues front (s.append part) (t.append part) := by
  obtain ⟨hdepth, before, before', shared, hs, ht, hbefore, hbefore', hshared⟩ := h
  refine ⟨hdepth, ?_⟩
  cases shared with
  | cons first shared =>
    exact ⟨before, before', first :: shared ++ [part], by simp [hs], by simp [ht], hbefore,
      hbefore', hshared⟩
  | nil =>
    by_cases hpart : Shows part
    · exact ⟨before, before', [part], by simp [hs], by simp [ht], hbefore, hbefore',
        by simpa using hpart⟩
    · refine ⟨before ++ [part], before' ++ [part], [], by simp [hs], by simp [ht], ?_, ?_, by simp⟩
      · exact List.forall_mem_append.mpr ⟨hbefore, by simpa using hpart⟩
      · exact List.forall_mem_append.mpr ⟨hbefore', by simpa using hpart⟩

/-- `_break` adds the same line breaks to both, or breaks of which a reader sees nothing. -/
theorem breakLines (h : Continues front s t) (lines : ℕ) :
    Continues front (s.breakLines lines) (t.breakLines lines) := by
  obtain ⟨hdepth, before, before', shared, hs, ht, hbefore, hbefore', hshared⟩ := h
  cases shared with
  | nil =>
    obtain ⟨added, hadded, hhidden⟩ := s.parts_breakLines lines
    obtain ⟨added', hadded', hhidden'⟩ := t.parts_breakLines lines
    refine ⟨by simpa using hdepth, before ++ added, before' ++ added', [], ?_, ?_,
      List.forall_mem_append.mpr ⟨hbefore, hhidden⟩,
      List.forall_mem_append.mpr ⟨hbefore', hhidden'⟩, by simp⟩
    · simp [hadded, hs]
    · simp [hadded', ht]
  | cons first shared =>
    have hfirst : Shows first := hshared first rfl
    have hmissing : trailingBreaks s.parts = trailingBreaks t.parts := by
      rw [hs, ht, ← List.append_assoc, trailingBreaks_append hfirst, trailingBreaks_append hfirst]
    have hne : s.parts ≠ [] := by simp [hs]
    have hne' : t.parts ≠ [] := by simp [ht]
    have hcontinues : Continues front s t :=
      ⟨hdepth, before, before', first :: shared, hs, ht, hbefore, hbefore', hshared⟩
    rw [HtmlToText.breakLines, HtmlToText.breakLines, hmissing]
    by_cases hmore : 0 < lines - trailingBreaks t.parts
    · rw [if_pos ⟨hne, hmore⟩, if_pos ⟨hne', hmore⟩]
      exact hcontinues.append _
    · rw [if_neg fun h => hmore h.2, if_neg fun h => hmore h.2]
      exact hcontinues

theorem step (h : Continues front s t) (event : HtmlEvent) :
    Continues front (s.step event) (t.step event) := by
  have hstart : ∀ tag, Continues front (s.handleStarttag tag) (t.handleStarttag tag) := by
    intro tag
    rw [handleStarttag, handleStarttag]
    split_ifs
    · exact ⟨congrArg (· + 1) h.skipDepth, h.parts⟩
    · exact h.append _
    · exact (h.breakLines 1).append _
    · exact h.breakLines 1
    · exact h
  cases event with
  | startTag tag => exact hstart tag
  | startEndTag tag =>
    change Continues front (s.handleStartendtag tag) (t.handleStartendtag tag)
    rw [handleStartendtag, handleStartendtag]
    split_ifs
    · exact hstart tag
    · exact h
  | endTag tag =>
    change Continues front (s.handleEndtag tag) (t.handleEndtag tag)
    rw [handleEndtag, handleEndtag]
    by_cases hskip : tag ∈ skipTags
    · rw [if_pos hskip, if_pos hskip]
      exact ⟨congrArg (· - 1) h.skipDepth, h.parts⟩
    · rw [if_neg hskip, if_neg hskip]
      by_cases hblock : tag ∈ blockTags ∧ tag ≠ "br"
      · rw [if_pos hblock, if_pos hblock]
        exact h.breakLines _
      · rw [if_neg hblock, if_neg hblock]
        exact h
  | data data =>
    change Continues front (s.handleData data) (t.handleData data)
    rw [handleData, handleData, h.skipDepth]
    split_ifs
    · exact h.append data
    · exact h

theorem feed (h : Continues front s t) (events : List HtmlEvent) :
    Continues front (s.feed events) (t.feed events) := by
  induction events generalizing s t with
  | nil => exact h
  | cons event events ih => exact ih (h.step event)

end Continues

namespace Continues

variable {front : List (List Char)} {s t : HtmlToText}

theorem texts (h : Continues front s t) :
    ∃ before before' shared, s.text = front.flatten ++ (before ++ shared) ∧
      t.text = before' ++ shared ∧ (∀ c ∈ before, isPythonSpace c = true) ∧
      ∀ c ∈ before', isPythonSpace c = true := by
  obtain ⟨-, before, before', shared, hs, ht, hbefore, hbefore', -⟩ := h
  have hspace : ∀ {parts : List (List Char)}, (∀ part ∈ parts, ¬Shows part) →
      ∀ c ∈ parts.flatten, isPythonSpace c = true := by
    intro parts hparts c hc
    obtain ⟨part, hpart, hmem⟩ := List.mem_flatten.mp hc
    by_contra hnot
    exact hparts part hpart ⟨c, hmem, by simpa using hnot⟩
  exact ⟨before.flatten, before'.flatten, shared.flatten, by simp [text, hs], by simp [text, ht],
    hspace hbefore, hspace hbefore'⟩

theorem visibleLines (h : Continues front s t) (hfront : EndsWithBreaks 1 front.flatten) :
    visibleLines s.text = visibleLines front.flatten ++ visibleLines t.text := by
  obtain ⟨before, before', shared, hs, ht, hbefore, hbefore'⟩ := h.texts
  rw [hs, ht, visibleLines_append hfront, visibleLines_blank_append hbefore,
    visibleLines_blank_append hbefore']

theorem paragraphs (h : Continues front s t) (hfront : EndsWithBreaks 2 front.flatten) :
    paragraphs s.text = paragraphs front.flatten ++ paragraphs t.text := by
  obtain ⟨before, before', shared, hs, ht, hbefore, hbefore'⟩ := h.texts
  rw [hs, ht, paragraphs_append hfront, paragraphs_blank_append hbefore,
    paragraphs_blank_append hbefore']

end Continues

/-- The first parser has ended so many lines of a text, and goes on as the second one does. -/
def GoesOn (source : List Char) (lines : ℕ) (s t : HtmlToText) : Prop :=
  ∃ front m, front.flatten = source ++ List.replicate m '\n' ∧
    EndsWithBreaks lines front.flatten ∧ Continues front s t

namespace GoesOn

variable {source : List Char} {lines : ℕ} {s t : HtmlToText}

theorem append (h : GoesOn source lines s t) (part : List Char) :
    GoesOn source lines (s.append part) (t.append part) := by
  obtain ⟨front, m, hfront, hends, hcontinues⟩ := h
  exact ⟨front, m, hfront, hends, hcontinues.append part⟩

theorem feed (h : GoesOn source lines s t) (events : List HtmlEvent) :
    GoesOn source lines (s.feed events) (t.feed events) := by
  obtain ⟨front, m, hfront, hends, hcontinues⟩ := h
  exact ⟨front, m, hfront, hends, hcontinues.feed events⟩

theorem pred (h : GoesOn source (lines + 1) s t) : GoesOn source lines s t := by
  obtain ⟨front, m, hfront, hends, hcontinues⟩ := h
  exact ⟨front, m, hfront, hends.pred, hcontinues⟩

theorem visibleLines (h : GoesOn source 1 s t) :
    visibleLines s.text = visibleLines source ++ visibleLines t.text := by
  obtain ⟨front, m, hfront, hends, hcontinues⟩ := h
  rw [hcontinues.visibleLines hends, hfront, PushIT.visibleLines, paragraphs_append_replicate,
    PushIT.visibleLines, PushIT.visibleLines]

theorem paragraphs (h : GoesOn source 2 s t) :
    paragraphs s.text = paragraphs source ++ paragraphs t.text := by
  obtain ⟨front, m, hfront, hends, hcontinues⟩ := h
  rw [hcontinues.paragraphs hends, hfront, paragraphs_append_replicate]

end GoesOn

/-- After its line breaks a parser goes on like a new one. -/
theorem goesOn_breakLines (hne : s.parts ≠ []) (hdepth : s.skipDepth = 0) (lines : ℕ) :
    GoesOn s.text lines (s.breakLines lines) {} := by
  obtain ⟨hends, m, hm⟩ := text_breakLines hne lines
  exact ⟨(s.breakLines lines).parts, m, hm, hends, by simpa using hdepth, [], [], [], by simp, rfl,
    by simp, by simp, by simp⟩

theorem goesOn_append_feed (hdepth : s.skipDepth = 0) :
    GoesOn s.text 1 (s.append ['\n']) (({} : HtmlToText).append ['\n']) := by
  have hends : EndsWithBreaks 1 (s.parts ++ [['\n']]).flatten :=
    ⟨s.text, [], by simp [text], by simp [Blank], trivial⟩
  exact ⟨s.parts ++ [['\n']], 1, by simp [text], hends, hdepth, [], [['\n']], [], by simp, rfl,
    by simp, by simpa using not_shows_replicate 1, by simp⟩

@[simp]
theorem breakLines_new (lines : ℕ) : ({} : HtmlToText).breakLines lines = {} := by
  rw [breakLines]
  exact if_neg fun h => h.1 rfl

end HtmlToText

/-- The tags of a block, at which a line ends. -/
def HtmlEvent.isBlock : HtmlEvent → Bool
  | .startTag tag => blockTags.contains tag
  | .startEndTag tag => blockTags.contains tag
  | .endTag tag => blockTags.contains tag && tag != "br"
  | .data _ => false

theorem not_mem_skipTags : ∀ tag ∈ blockTags, tag ∉ skipTags := by decide

namespace HtmlToText

variable {s : HtmlToText}

theorem goesOn_handleStarttag (hne : s.parts ≠ []) (hdepth : s.skipDepth = 0) {tag : String}
    (htag : tag ∈ blockTags) :
    GoesOn s.text 1 (s.handleStarttag tag) (({} : HtmlToText).handleStarttag tag) := by
  have hbreak := goesOn_breakLines hne hdepth 1
  rw [handleStarttag, handleStarttag, if_neg (not_mem_skipTags tag htag),
    if_neg (not_mem_skipTags tag htag), breakLines_new]
  split_ifs
  · exact goesOn_append_feed hdepth
  · exact hbreak.append _
  · exact hbreak

theorem handleEndtag_block {tag : String} (htag : tag ∈ blockTags) (hbr : tag ≠ "br") :
    s.handleEndtag tag = s.breakLines (if tag = "p" then 2 else 1) := by
  rw [handleEndtag, if_neg (not_mem_skipTags tag htag), if_pos ⟨htag, hbr⟩]

/-- A block ends the line before it, and goes on as at the start of a mail. -/
theorem goesOn_step (hne : s.parts ≠ []) (hdepth : s.skipDepth = 0) {event : HtmlEvent}
    (hblock : event.isBlock = true) :
    GoesOn s.text 1 (s.step event) (({} : HtmlToText).step event) := by
  cases event with
  | startTag tag =>
    have htag : tag ∈ blockTags := by simpa [HtmlEvent.isBlock] using hblock
    exact goesOn_handleStarttag hne hdepth htag
  | startEndTag tag =>
    have htag : tag ∈ blockTags := by simpa [HtmlEvent.isBlock] using hblock
    change GoesOn s.text 1 (s.handleStartendtag tag) (({} : HtmlToText).handleStartendtag tag)
    rw [handleStartendtag, handleStartendtag, if_pos htag, if_pos htag]
    exact goesOn_handleStarttag hne hdepth htag
  | endTag tag =>
    obtain ⟨htag, hbr⟩ : tag ∈ blockTags ∧ tag ≠ "br" := by simpa [HtmlEvent.isBlock] using hblock
    change GoesOn s.text 1 (s.handleEndtag tag) (({} : HtmlToText).handleEndtag tag)
    rw [handleEndtag_block htag hbr, handleEndtag_block htag hbr, breakLines_new]
    split_ifs
    · exact (goesOn_breakLines hne hdepth 2).pred
    · exact goesOn_breakLines hne hdepth 1
  | data data => simp [HtmlEvent.isBlock] at hblock

theorem feed_append (s : HtmlToText) (before after : List HtmlEvent) :
    s.feed (before ++ after) = (s.feed before).feed after :=
  List.foldl_append

/-- A parser that has collected nothing and is in no hidden element is a new one. -/
theorem eq_new (hnil : s.parts = []) (hdepth : s.skipDepth = 0) : s = {} := by
  obtain ⟨parts, skipDepth⟩ := s
  obtain rfl : parts = [] := hnil
  obtain rfl : skipDepth = 0 := hdepth
  rfl

end HtmlToText

theorem toList_htmlToText (events : List HtmlEvent) :
    (htmlToText events).toList = plainText (({} : HtmlToText).feed events).text :=
  String.toList_ofList

theorem paragraphs_htmlToText (events : List HtmlEvent) :
    paragraphs (htmlToText events).toList = paragraphs (({} : HtmlToText).feed events).text := by
  rw [toList_htmlToText, paragraphs_plainText]

theorem visibleLines_htmlToText (events : List HtmlEvent) :
    visibleLines (htmlToText events).toList =
      visibleLines (({} : HtmlToText).feed events).text := by
  rw [visibleLines, paragraphs_htmlToText, visibleLines]

section Composition

variable {before after : List HtmlEvent} {event : HtmlEvent}

theorem visibleLines_compose (hdepth : (({} : HtmlToText).feed before).skipDepth = 0)
    (hblock : event.isBlock = true) :
    visibleLines (htmlToText (before ++ event :: after)).toList =
      visibleLines (htmlToText before).toList ++
        visibleLines (htmlToText (event :: after)).toList := by
  rw [visibleLines_htmlToText, visibleLines_htmlToText, visibleLines_htmlToText,
    HtmlToText.feed_append]
  by_cases hnil : (({} : HtmlToText).feed before).parts = []
  · rw [HtmlToText.eq_new hnil hdepth]
    rfl
  · exact ((HtmlToText.goesOn_step hnil hdepth hblock).feed after).visibleLines

theorem paragraphs_compose (hdepth : (({} : HtmlToText).feed before).skipDepth = 0) :
    paragraphs (htmlToText (before ++ .endTag "p" :: after)).toList =
      paragraphs (htmlToText before).toList ++ paragraphs (htmlToText after).toList := by
  rw [paragraphs_htmlToText, paragraphs_htmlToText, paragraphs_htmlToText, HtmlToText.feed_append]
  by_cases hnil : (({} : HtmlToText).feed before).parts = []
  · rw [HtmlToText.eq_new hnil hdepth]
    rfl
  · exact ((HtmlToText.goesOn_breakLines hnil hdepth 2).feed after).paragraphs

theorem layOut_htmlToText (events : List HtmlEvent) :
    layOut '\n' (paragraphs (htmlToText events).toList) = (htmlToText events).toList := by
  rw [paragraphs_htmlToText, ← plainText_eq, toList_htmlToText]

/-- A mail is laid out block by block: outside hidden elements the tag of a block ends a line, so
that the lines before it and those from it on are the ones they would be alone; and the end of a
paragraph ends one, with a blank line between it and the text that follows. -/
theorem blocks_compose (before after : List HtmlEvent) (event : HtmlEvent)
    (hdepth : (({} : HtmlToText).feed before).skipDepth = 0) (hblock : event.isBlock = true) :
    visibleLines (htmlToText (before ++ event :: after)).toList =
        visibleLines (htmlToText before).toList ++
          visibleLines (htmlToText (event :: after)).toList ∧
      (event = .endTag "p" →
        paragraphs (htmlToText (before ++ event :: after)).toList =
            paragraphs (htmlToText before).toList ++ paragraphs (htmlToText after).toList ∧
          (htmlToText before ≠ "" → htmlToText after ≠ "" →
            htmlToText (before ++ event :: after) =
              htmlToText before ++ "\n\n" ++ htmlToText after)) := by
  refine ⟨visibleLines_compose hdepth hblock, ?_⟩
  rintro rfl
  have hall : paragraphs (htmlToText (before ++ .endTag "p" :: after)).toList = _ :=
    paragraphs_compose hdepth
  have hne : ∀ {events}, htmlToText events ≠ "" → paragraphs (htmlToText events).toList ≠ [] := by
    intro events hevents hnil
    have htext := layOut_htmlToText events
    rw [hnil] at htext
    exact hevents (String.toList_eq_nil_iff.mp htext.symm)
  refine ⟨hall, fun hbefore hafter => ?_⟩
  rw [← String.toList_inj, ← layOut_htmlToText, hall, layOut_append (hne hbefore) (hne hafter),
    layOut_htmlToText, layOut_htmlToText, String.toList_append, String.toList_append,
    List.append_assoc]
  rfl

end Composition

/-- A greeting, up to the end of its paragraph. -/
def sampleGreeting : List HtmlEvent :=
  [.startTag "p", .data "Hello\u00a0".toList, .startTag "b", .data "World".toList, .endTag "b",
    .data " & co".toList]

/-- What follows the greeting. -/
def sampleList : List HtmlEvent :=
  [.startTag "div", .data "Line2".toList, .startTag "br", .data "Line3".toList, .endTag "div",
    .startTag "ul", .startTag "li", .data "one".toList, .endTag "li", .startTag "li",
    .data "two".toList, .endTag "li", .endTag "ul", .startTag "p", .endTag "p", .startTag "p",
    .endTag "p", .startTag "p", .data "End".toList, .endTag "p"]

theorem sample_blocks_compose :
    (({} : HtmlToText).feed sampleGreeting).skipDepth = 0 ∧
      htmlToText (sampleGreeting ++ .endTag "p" :: sampleList) =
        htmlToText sampleGreeting ++ "\n\n" ++ htmlToText sampleList :=
  ⟨by decide, ((blocks_compose sampleGreeting sampleList (.endTag "p") (by decide) (by decide)).2
    rfl).2 (by decide) (by decide)⟩

example : htmlToText (sampleGreeting ++ .endTag "p" :: sampleList) =
    "Hello World & co\n\nLine2\nLine3\n- one\n- two\n\nEnd" := by decide +kernel

/-! ### Hidden elements -/

/-- Events at which a parser within a hidden element does nothing. -/
def HtmlEvent.isInert : HtmlEvent → Bool
  | .startTag tag => !skipTags.contains tag && !blockTags.contains tag
  | .startEndTag tag => !blockTags.contains tag
  | .endTag tag => !skipTags.contains tag && !(blockTags.contains tag && tag != "br")
  | .data _ => true

/-- What stands in a hidden element without blocks: texts, other tags and hidden elements. -/
inductive Hidden : List HtmlEvent → Prop
  | nil : Hidden []
  | inert (event : HtmlEvent) (rest : List HtmlEvent) (hinert : event.isInert = true)
      (hrest : Hidden rest) : Hidden (event :: rest)
  | element (tag tag' : String) (inner rest : List HtmlEvent) (htag : tag ∈ skipTags)
      (htag' : tag' ∈ skipTags) (hinner : Hidden inner) (hrest : Hidden rest) :
      Hidden (.startTag tag :: (inner ++ .endTag tag' :: rest))

namespace HtmlToText

variable {s : HtmlToText}

theorem step_inert (hdepth : 0 < s.skipDepth) {event : HtmlEvent} (h : event.isInert = true) :
    s.step event = s := by
  cases event with
  | startTag tag =>
    obtain ⟨hskip, hblock⟩ : tag ∉ skipTags ∧ tag ∉ blockTags := by
      simpa [HtmlEvent.isInert] using h
    have hbr : tag ≠ "br" := by
      rintro rfl
      exact hblock (by decide)
    change s.handleStarttag tag = s
    rw [handleStarttag, if_neg hskip, if_neg hbr, if_neg hblock]
  | startEndTag tag =>
    have hblock : tag ∉ blockTags := by simpa [HtmlEvent.isInert] using h
    exact if_neg hblock
  | endTag tag =>
    obtain ⟨hskip, hblock⟩ : tag ∉ skipTags ∧ (tag ∉ blockTags ∨ tag = "br") := by
      simpa [HtmlEvent.isInert] using h
    change s.handleEndtag tag = s
    rw [handleEndtag, if_neg hskip, if_neg fun hends => hblock.elim (· hends.1) hends.2]
  | data data => exact if_neg (Nat.ne_of_gt hdepth)

/-- A hidden element is entered and left. -/
theorem feed_element {inner : List HtmlEvent} {tag tag' : String} (htag : tag ∈ skipTags)
    (htag' : tag' ∈ skipTags) (rest : List HtmlEvent)
    (hinner : ∀ s : HtmlToText, 0 < s.skipDepth → s.feed inner = s) :
    s.feed (.startTag tag :: (inner ++ .endTag tag' :: rest)) = s.feed rest := by
  have hstart : s.step (.startTag tag) = { s with skipDepth := s.skipDepth + 1 } := if_pos htag
  have hend : ({ s with skipDepth := s.skipDepth + 1 } : HtmlToText).step (.endTag tag') = s :=
    if_pos htag'
  change (s.step (.startTag tag)).feed (inner ++ .endTag tag' :: rest) = s.feed rest
  rw [hstart, feed_append, hinner _ (Nat.succ_pos _)]
  change (HtmlToText.step _ (.endTag tag')).feed rest = s.feed rest
  rw [hend]

/-- Within a hidden element nothing is collected. -/
theorem feed_hidden {events : List HtmlEvent} (h : Hidden events) (s : HtmlToText)
    (hdepth : 0 < s.skipDepth) : s.feed events = s := by
  induction h generalizing s with
  | nil => rfl
  | inert event rest hinert _ ih =>
    change (s.step event).feed rest = s
    rw [step_inert hdepth hinert, ih s hdepth]
  | element tag tag' inner rest htag htag' _ _ ihinner ihrest =>
    rw [feed_element htag htag' rest ihinner, ihrest s hdepth]

end HtmlToText

/-- A hidden element without blocks leaves no trace: the text of a mail is what it would be without
the element, whatever stands in it and wherever it stands. -/
theorem hidden_elements_vanish (before inner after : List HtmlEvent) (tag tag' : String)
    (htag : tag ∈ skipTags) (htag' : tag' ∈ skipTags) (hinner : Hidden inner) :
    htmlToText (before ++ .startTag tag :: (inner ++ .endTag tag' :: after)) =
      htmlToText (before ++ after) := by
  rw [htmlToText, HtmlToText.feed_append,
    HtmlToText.feed_element htag htag' after (HtmlToText.feed_hidden hinner), htmlToText,
    HtmlToText.feed_append]

theorem sample_hidden_elements :
    htmlToText (sampleGreeting ++ .startTag "head" :: ([.startTag "style",
        .data "color: red".toList, .endTag "style"] ++ .endTag "head" :: sampleList)) =
      htmlToText (sampleGreeting ++ sampleList) :=
  hidden_elements_vanish sampleGreeting _ sampleList "head" "head" (by decide) (by decide)
    (.element "style" "style" [.data "color: red".toList] [] (by decide) (by decide)
      (.inert _ [] rfl .nil) .nil)

end PushIT
