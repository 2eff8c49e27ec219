import Mathlib.Data.List.TakeWhile
import LibJuno.Lib.Markup
import LibJuno.Providers.VtableTraceProvider

/-!
# What the trace page contains

File names, source lines and signatures are text of the workspace that the page shows. They
are escaped, so they are read as text and as values and never as tags: the tags of the page
are `pageTags`, whatever the texts are. So a click on a link of the page opens the file and the
line of its node.
-/

namespace LibJuno.Providers

open Indexer Resolver Markup

/-- The characters `<`, `>` and `"`. -/
def html : Delimiters UInt16 := ⟨60, 62, 34⟩

/-- A tag of the templates. -/
def templateTag (attributes : List (String × String)) (rest : String) : Tag UInt16 :=
  ⟨attributes.map fun a => (utf16 a.1, utf16 a.2), utf16 rest⟩

def linkTag (n : TraceNode) : Tag UInt16 :=
  ⟨[(utf16 "a href=", utf16 "#"), (utf16 " data-file=", escHtml n.file),
    (utf16 " data-line=", digits n.line)], []⟩

def nodeHeadTags (nodeClass : String) : List (Tag UInt16) :=
  [⟨[(utf16 "div class=", utf16 "trace-node " ++ utf16 nodeClass)], []⟩,
    templateTag [("span class=", "node-icon")] "", templateTag [] "/span",
    templateTag [("span class=", "node-label")] "", templateTag [] "/span",
    templateTag [("div class=", "node-detail")] ""]

def nodeTags (nodeClass : String) (n : TraceNode) : List (Tag UInt16) :=
  nodeHeadTags nodeClass ++ [linkTag n, templateTag [] "/a", templateTag [] "code",
    templateTag [] "/code", templateTag [] "/div", templateTag [] "/div"]

def connectorTags : List (Tag UInt16) :=
  [templateTag [("div class=", "trace-connector")] "", templateTag [] "/div"]

def initImplTags (initImpl : Option TraceNode) : List (Tag UInt16) :=
  match initImpl with
  | some n => connectorTags ++ nodeTags "init-impl" n
  | none => []

def subtreeTags (t : VtableTrace) : List (Tag UInt16) :=
  connectorTags ++ nodeTags "composition-root" t.compositionRoot ++ initImplTags t.initImpl ++
    connectorTags ++ nodeTags "implementation" t.implementation

def resultTags (t : VtableTrace) : List (Tag UInt16) :=
  [templateTag [] "details open", templateTag [] "summary", templateTag [] "/summary"] ++
    subtreeTags t ++ [templateTag [] "/details"]

def subtreesTags (traces : List VtableTrace) : List (Tag UInt16) :=
  match traces with
  | [t] => subtreeTags t
  | _ => traces.flatMap resultTags

/-- The tags up to the call site. -/
def headTags (nonce : CodeUnits) : List (Tag UInt16) :=
  [templateTag [] "!DOCTYPE html", templateTag [("html lang=", "en")] "", templateTag [] "head",
    templateTag [("meta charset=", "UTF-8")] "",
    ⟨[(utf16 "meta http-equiv=", utf16 "Content-Security-Policy"),
      (utf16 " content=", utf16 "default-src 'none'; script-src 'nonce-" ++ nonce ++
        utf16 "'; style-src 'unsafe-inline';")], []⟩,
    templateTag [("meta name=", "viewport"),
      (" content=", "width=device-width, initial-scale=1.0")] "",
    templateTag [] "title", templateTag [] "/title", templateTag [] "style", templateTag [] "/style",
    templateTag [] "/head", templateTag [] "body", templateTag [] "h2", templateTag [] "/h2",
    templateTag [("div class=", "trace-tree")] ""]

/-- The tags after the last subtree. -/
def tailTags (nonce : CodeUnits) : List (Tag UInt16) :=
  [templateTag [] "/div", ⟨[(utf16 "script nonce=", nonce)], []⟩, templateTag [] "/script",
    templateTag [] "/body", templateTag [] "/html"]

def pageTags (t : VtableTrace) (traces : List VtableTrace) (nonce : CodeUnits) : List (Tag UInt16) :=
  headTags nonce ++ nodeTags "call-site" t.callSite ++ subtreesTags (t :: traces) ++ tailTags nonce

section Texts

/-- No delimiter. -/
def Plain (s : CodeUnits) : Prop := 60 ∉ s ∧ 62 ∉ s ∧ 34 ∉ s

instance (s : CodeUnits) : Decidable (Plain s) := inferInstanceAs (Decidable (_ ∧ _ ∧ _))

theorem escHtml_eq (s : CodeUnits) : escHtml s = Escaping.escape htmlEntities s :=
  Escaping.replaceAlls_eq (by decide) s

theorem plain_escHtml (s : CodeUnits) : Plain (escHtml s) := by
  rw [escHtml_eq]
  refine ⟨?_, ?_, ?_⟩
  · exact Escaping.not_mem_escape ⟨utf16 "&lt;", by decide⟩ (by decide) s
  · exact Escaping.not_mem_escape ⟨utf16 "&gt;", by decide⟩ (by decide) s
  · exact Escaping.not_mem_escape ⟨utf16 "&quot;", by decide⟩ (by decide) s

theorem readable_htmlEntities : Escaping.Readable htmlEntities 38 where
  marked := ⟨utf16 "&amp;", by decide⟩
  starts := by
    intro e listed
    refine ⟨e.2.tail, ?_⟩
    revert e
    decide
  apart := by decide

/-- A browser reads back what was escaped. -/
theorem decode_escHtml (s : CodeUnits) : Escaping.decode htmlEntities (escHtml s) = s := by
  rw [escHtml_eq, Escaping.decode_escape readable_htmlEntities]

/-- A digit as a code unit. -/
theorem utf16Char_of_isDigit {c : Char} (digit : c.isDigit = true) :
    utf16Char c = [c.toNat.toUInt16] ∧ c.toNat.toUInt16.toNat = c.toNat ∧ 48 ≤ c.toNat ∧ c.toNat ≤ 57 := by
  obtain ⟨above, below⟩ := Char.isDigit_iff_toNat.1 digit
  change 48 ≤ c.toNat at above
  change c.toNat ≤ 57 at below
  have unit : c.toNat.toUInt16.toNat = c.toNat := by
    apply UInt16.toNat_ofNat_of_lt'
    show c.toNat < 65536
    omega
  exact ⟨if_pos (by omega), unit, above, below⟩

theorem digits_eq (n : Nat) :
    digits n = (Nat.toDigits 10 n).map (fun c => c.toNat.toUInt16) ∧
      ∀ c ∈ Nat.toDigits 10 n, c.isDigit = true := by
  have all : ∀ c ∈ Nat.toDigits 10 n, c.isDigit = true :=
    fun c member => Nat.isDigit_of_mem_toDigits (by omega) (by omega) member
  refine ⟨?_, all⟩
  rw [digits, utf16, Nat.toString_eq_repr, Nat.repr, String.toList_ofList, List.map_eq_flatMap]
  apply List.flatMap_congr
  intro c member
  exact (utf16Char_of_isDigit (all c member)).1

theorem digit_of_mem {n : Nat} {u : UInt16} (member : u ∈ digits n) : 48 ≤ u.toNat ∧ u.toNat ≤ 57 := by
  obtain ⟨same, all⟩ := digits_eq n
  rw [same, List.mem_map] at member
  obtain ⟨c, inside, rfl⟩ := member
  obtain ⟨-, unit, bounds⟩ := utf16Char_of_isDigit (all c inside)
  rw [unit]
  exact bounds

theorem plain_digits (n : Nat) : Plain (digits n) := by
  refine ⟨?_, ?_, ?_⟩ <;>
  · intro member
    have bounds := digit_of_mem member
    simp at bounds

theorem plain_generateNonce (base64 : CodeUnits) : Plain (generateNonce base64) := by
  have alphanumeric : ∀ u ∈ generateNonce base64, isAlphanumeric u = true :=
    fun u member => (List.mem_filter.1 (List.mem_of_mem_take member)).2
  refine ⟨?_, ?_, ?_⟩ <;>
  · intro member
    have := alphanumeric _ member
    revert this
    decide

end Texts

section Reading

variable {attributes : List (CodeUnits × CodeUnits)} {name value : CodeUnits}

/-- A literal, read character by character. -/
theorem scan_literal {lit : String} {cs : List Char} {p : Place UInt16}
    {x : Place UInt16 × List (Tag UInt16)} (chars : String.ofList cs = lit)
    (read : scan html p (cs.flatMap utf16Char) = x) : scan html p (utf16 lit) = x := by
  subst chars
  rw [utf16, String.toList_ofList, read]

/-- The end of a value and of its tag. -/
theorem scan_tagEnd : scan html (.quoted attributes name value) (utf16 "\">") =
    (.text, [⟨attributes ++ [(name, value)], []⟩]) := rfl

theorem scan_link (n : TraceNode) :
    scan html .text (linkHtml n) = (.text, [linkTag n, templateTag [] "/a"]) := by
  have file := plain_escHtml n.file
  have line := plain_digits n.line
  have upToFile : scan html .text (utf16 "<a href=\"#\" data-file=\"") =
      (.quoted [(utf16 "a href=", utf16 "#")] (utf16 " data-file=") [], []) :=
    scan_literal rfl (by decide +kernel)
  have upToLine : ∀ attributes name value,
      scan html (.quoted attributes name value) (utf16 "\" data-line=\"") =
        (.quoted (attributes ++ [(name, value)]) (utf16 " data-line=") [], []) := fun _ _ _ => rfl
  have colon : scan html .text (utf16 ":") = (.text, []) := scan_literal rfl (by decide)
  have closing : scan html .text (utf16 "</a>") = (.text, [templateTag [] "/a"]) :=
    scan_literal rfl (by decide)
  exact scan_trans (scan_trans (scan_trans (scan_trans (scan_trans (scan_trans (scan_trans (scan_trans
    upToFile (scan_value file.2.2)) (upToLine _ _ _)) (scan_value line.2.2)) scan_tagEnd)
    (scan_text file.1)) colon) (scan_text line.1)) closing

/-- The head of a node whose class, icon, title and indentation are plain. -/
theorem scan_nodeHead {nodeClass icon title indent : String} (classPlain : Plain (utf16 nodeClass))
    (iconPlain : Plain (utf16 icon)) (titlePlain : Plain (utf16 title))
    (indentPlain : Plain (utf16 indent)) :
    scan html .text (nodeHead nodeClass icon title indent) = (.text, nodeHeadTags nodeClass) := by
  have opening : scan html .text (utf16 "<div class=\"trace-node ") =
      (.quoted [] (utf16 "div class=") (utf16 "trace-node "), []) := scan_literal rfl (by decide +kernel)
  have opened : ∀ attributes name value, scan html (.quoted attributes name value) (utf16 "\">\n") =
      (.text, [⟨attributes ++ [(name, value)], []⟩]) := fun _ _ _ => rfl
  have iconTag : scan html .text (utf16 "  <span class=\"node-icon\">") =
      (.text, [templateTag [("span class=", "node-icon")] ""]) := scan_literal rfl (by decide +kernel)
  have labelTag : scan html .text (utf16 "  <span class=\"node-label\">") =
      (.text, [templateTag [("span class=", "node-label")] ""]) := scan_literal rfl (by decide +kernel)
  have spanEnd : scan html .text (utf16 "</span>\n") = (.text, [templateTag [] "/span"]) :=
    scan_literal rfl (by decide +kernel)
  have detailTag : scan html .text (utf16 "  <div class=\"node-detail\">\n") =
      (.text, [templateTag [("div class=", "node-detail")] ""]) := scan_literal rfl (by decide +kernel)
  have blank : scan html .text (utf16 "    ") = (.text, []) := scan_literal rfl (by decide)
  have indented : scan html .text (utf16 indent) = (.text, []) := scan_text indentPlain.1
  have classLine := scan_trans (scan_trans opening (scan_value classPlain.2.2)) (opened _ _ _)
  have iconLine := scan_trans (scan_trans (scan_trans indented iconTag) (scan_text iconPlain.1)) spanEnd
  have titleLine := scan_trans (scan_trans (scan_trans indented labelTag) (scan_text titlePlain.1)) spanEnd
  rw [nodeHead, scan_trans (scan_trans (scan_trans (scan_trans classLine iconLine) titleLine)
    (scan_trans indented detailTag)) (scan_trans indented blank)]
  rfl

theorem scan_node {nodeClass icon title indent : String} (classPlain : Plain (utf16 nodeClass))
    (iconPlain : Plain (utf16 icon)) (titlePlain : Plain (utf16 title))
    (indentPlain : Plain (utf16 indent)) (n : TraceNode) :
    scan html .text (nodeHtml nodeClass icon title indent n) = (.text, nodeTags nodeClass n) := by
  have head := scan_nodeHead classPlain iconPlain titlePlain indentPlain
  have newline : scan html .text (utf16 "\n") = (.text, []) := scan_literal rfl (by decide)
  have indented : scan html .text (utf16 indent) = (.text, []) := scan_text indentPlain.1
  have codeTag : scan html .text (utf16 "    <code>") = (.text, [templateTag [] "code"]) :=
    scan_literal rfl (by decide +kernel)
  have detail : scan html .text (escHtml n.detail) = (.text, []) :=
    scan_text (plain_escHtml n.detail).1
  have codeEnd : scan html .text (utf16 "</code>\n") = (.text, [templateTag [] "/code"]) :=
    scan_literal rfl (by decide +kernel)
  have divEnd : scan html .text (utf16 "  </div>\n") = (.text, [templateTag [] "/div"]) :=
    scan_literal rfl (by decide +kernel)
  have nodeEnd : scan html .text (utf16 "</div>") = (.text, [templateTag [] "/div"]) :=
    scan_literal rfl (by decide +kernel)
  have linkLine := scan_trans (scan_trans head (scan_link n)) newline
  have codeLine := scan_trans (scan_trans (scan_trans indented codeTag) detail) codeEnd
  rw [nodeHtml, nodeTags, scan_trans (scan_trans (scan_trans linkLine codeLine)
    (scan_trans indented divEnd)) (scan_trans indented nodeEnd)]
  simp only [List.append_nil, List.append_assoc, List.cons_append, List.nil_append]

theorem scan_callSite (n : TraceNode) :
    scan html .text (nodeHtml "call-site" "📍" "Call Site" "    " n) =
      (.text, nodeTags "call-site" n) :=
  scan_node (by decide) (by decide) (by decide) (by decide) n

theorem scan_compositionRoot (n : TraceNode) :
    scan html .text (nodeHtml "composition-root" "🔗" "Composition Root" "  " n) =
      (.text, nodeTags "composition-root" n) :=
  scan_node (by decide) (by decide) (by decide) (by decide) n

theorem scan_implementation (n : TraceNode) :
    scan html .text (nodeHtml "implementation" "⚡" "Implementation" "  " n) =
      (.text, nodeTags "implementation" n) :=
  scan_node (by decide) (by decide) (by decide) (by decide) n

theorem scan_connector : scan html .text connector = (.text, connectorTags) :=
  scan_literal rfl (by decide +kernel)

theorem scan_initImpl (initImpl : Option TraceNode) :
    scan html .text (initImplHtml initImpl) = (.text, initImplTags initImpl) := by
  cases initImpl with
  | none => rfl
  | some n =>
    apply scan_trans scan_connector
    exact scan_node (by decide) (by decide) (by decide) (by decide) n

theorem scan_subtree (t : VtableTrace) :
    scan html .text (buildSubtreeHtml t) = (.text, subtreeTags t) :=
  scan_trans (scan_trans (scan_trans (scan_trans scan_connector (scan_compositionRoot _))
    (scan_initImpl _)) scan_connector) (scan_implementation _)

theorem scan_result (x : VtableTrace × Nat) :
    scan html .text (resultHtml x) = (.text, resultTags x.1) := by
  have opening : scan html .text (utf16 "\n  <details open>\n    <summary>Result ") =
      (.text, [templateTag [] "details open", templateTag [] "summary"]) :=
    scan_literal rfl (by decide +kernel)
  have colon : scan html .text (utf16 ": ") = (.text, []) := scan_literal rfl (by decide)
  have summary : scan html .text (utf16 "</summary>") = (.text, [templateTag [] "/summary"]) :=
    scan_literal rfl (by decide +kernel)
  have closing : scan html .text (utf16 "\n  </details>") = (.text, [templateTag [] "/details"]) :=
    scan_literal rfl (by decide +kernel)
  exact scan_trans (scan_trans (scan_trans (scan_trans (scan_trans (scan_trans opening
    (scan_text (plain_digits _).1)) colon) (scan_text (plain_escHtml _).1)) summary) (scan_subtree x.1))
    closing

theorem scan_subtrees (traces : List VtableTrace) :
    scan html .text (subtreesHtml traces) = (.text, subtreesTags traces) := by
  have results : ∀ k, scan html .text ((traces.zipIdx k).flatMap resultHtml) =
      (.text, traces.flatMap resultTags) := by
    induction traces with
    | nil => exact fun _ => rfl
    | cons t traces ih => exact fun k => scan_trans (scan_result (t, k)) (ih (k + 1))
  rcases traces with _ | ⟨t, _ | ⟨t', traces⟩⟩
  · exact results 0
  · exact scan_subtree t
  · exact results 0

set_option maxRecDepth 2000 in
theorem scan_head {nonce : CodeUnits} (plain : Plain nonce) :
    scan html .text (pageStart ++ nonce ++ pagePolicy) = (.text, (headTags nonce).take 5) := by
  have start : scan html .text pageStart =
      (.quoted [(utf16 "meta http-equiv=", utf16 "Content-Security-Policy")] (utf16 " content=")
        (utf16 "default-src 'none'; script-src 'nonce-"), (headTags []).take 4) :=
    scan_literal rfl (by decide +kernel)
  have policy : html.quote ∉ utf16 "'; style-src 'unsafe-inline';" := by decide
  rw [pagePolicy, scan_trans (scan_trans start (scan_value plain.2.2))
    (scan_trans (scan_value policy) scan_tagEnd)]
  rfl

set_option maxRecDepth 8000 in
theorem scan_style (nonce : CodeUnits) : scan html .text pageStyle = (.text, (headTags nonce).drop 5) :=
  scan_literal rfl (by decide +kernel : _ = (Place.text, (headTags []).drop 5))

theorem scan_tail {nonce : CodeUnits} (plain : Plain nonce) :
    scan html .text (pageTail ++ nonce ++ utf16 "\">") = (.text, (tailTags nonce).take 2) := by
  have last : scan html .text pageTail =
      (.quoted [] (utf16 "script nonce=") [], [templateTag [] "/div"]) :=
    scan_literal rfl (by decide +kernel)
  rw [scan_trans (scan_trans last (scan_value plain.2.2)) scan_tagEnd]
  rfl

set_option maxRecDepth 4000 in
theorem scan_script (nonce : CodeUnits) : scan html .text pageScript = (.text, (tailTags nonce).drop 2) :=
  scan_literal rfl (by decide +kernel : _ = (Place.text, (tailTags []).drop 2))

/-- The tags of the page. -/
theorem tags_generateHtml {nonce : CodeUnits} (plain : Plain nonce) (t : VtableTrace)
    (traces : List VtableTrace) :
    ∃ page, generateHtml (t :: traces) nonce = some page ∧ tags html page = pageTags t traces nonce := by
  refine ⟨_, rfl, ?_⟩
  have upToCall := scan_trans (scan_trans (scan_head plain) (scan_style nonce)) (scan_callSite t.callSite)
  rw [tags, scan_trans (scan_trans (scan_trans upToCall (scan_subtrees (t :: traces)))
    (scan_tail plain)) (scan_script nonce), pageTags, List.take_append_drop]
  show _ ++ List.take 2 (tailTags nonce) ++ List.drop 2 (tailTags nonce) = _
  rw [List.append_assoc, List.take_append_drop]

end Reading

section Script

/-- The attribute of a tag, with its entities read. -/
def attributeOf (t : Tag UInt16) (name : String) : Option CodeUnits :=
  (t.attributes.find? fun a => decide (a.1 = utf16 (" " ++ name ++ "="))).map fun a =>
    Escaping.decode htmlEntities a.2

/-- The tag is an anchor. -/
def isAnchor (t : Tag UInt16) : Bool :=
  decide (((t.attributes.map Prod.fst).headD t.rest).take 2 = utf16 "a ")

def isDigit (u : UInt16) : Bool := 48 ≤ u && u ≤ 57

/-- The number that a text starts with. -/
def leadingNumber (s : CodeUnits) : Option Int :=
  let ds := s.takeWhile isDigit
  if ds = [] then none else some (ds.foldl (fun n u => 10 * n + (u.toNat - 48)) 0 : Nat)

/-- `parseInt(s, 10)` -/
def parseInt (s : CodeUnits) : Option Int :=
  match s.dropWhile isSpace with
  | [] => none
  | u :: rest =>
    if u = 45 then (leadingNumber rest).map fun n => -n
    else if u = 43 then leadingNumber rest
    else leadingNumber (u :: rest)

/-- The message that the script of the page posts for a click on the tag. -/
def messageOf (t : Tag UInt16) : Option NavigateMessage :=
  if isAnchor t then
    (attributeOf t "data-file").map fun file =>
      ⟨file, parseInt (((attributeOf t "data-line").filter (· ≠ [])).getD (utf16 "1"))⟩
  else none

/-- What the links of a page open. -/
def links (page : CodeUnits) : List (Option Opened) :=
  ((tags html page).filterMap messageOf).map NavigateMessage.opens

theorem decode_digits (n : Nat) : Escaping.decode htmlEntities (digits n) = digits n := by
  have kept : Escaping.escape htmlEntities (digits n) = digits n := by
    apply Escaping.escape_of_absent
    intro e listed member
    have bounds := digit_of_mem member
    have outside : ∀ e ∈ htmlEntities, ¬(48 ≤ e.1.toNat ∧ e.1.toNat ≤ 57) := by decide
    exact outside e listed bounds
  calc Escaping.decode htmlEntities (digits n)
      = Escaping.decode htmlEntities (Escaping.escape htmlEntities (digits n)) := by rw [kept]
    _ = digits n := Escaping.decode_escape readable_htmlEntities _

theorem foldl_digits (cs : List Char) (all : ∀ c ∈ cs, c.isDigit = true) (k : Nat) :
    (cs.map fun c => c.toNat.toUInt16).foldl (fun n u => 10 * n + (u.toNat - 48)) k =
      Nat.ofDigitChars 10 cs k := by
  induction cs generalizing k with
  | nil => rfl
  | cons c cs ih =>
    obtain ⟨-, unit, -⟩ := utf16Char_of_isDigit (all c List.mem_cons_self)
    rw [List.map_cons, List.foldl_cons, Nat.ofDigitChars_cons,
      ih (fun c member => all c (List.mem_cons_of_mem _ member)), unit]
    rfl

theorem digits_ne_nil (n : Nat) : digits n ≠ [] := by
  rw [(digits_eq n).1]
  simp

/-- A number of a template is read back. -/
theorem parseInt_digits (n : Nat) : parseInt (digits n) = some (n : Int) := by
  have digit : ∀ u ∈ digits n, isDigit u = true := by
    intro u member
    have bounds := digit_of_mem member
    simp only [isDigit, Bool.and_eq_true, decide_eq_true_eq, UInt16.le_iff_toNat_le]
    exact bounds
  have number : leadingNumber (digits n) = some (n : Int) := by
    obtain ⟨same, all⟩ := digits_eq n
    rw [leadingNumber, List.takeWhile_eq_self_iff.2 digit, if_neg (digits_ne_nil n), same,
      foldl_digits _ all, Nat.ofDigitChars_ten_toDigits]
  have notSpecial : ∀ u, isDigit u = true → isSpace u = false ∧ u ≠ 45 ∧ u ≠ 43 := by
    intro u isDigit
    refine ⟨?_, ?_, ?_⟩
    · have word : isWord u = true := by
        rw [isWord, Providers.isDigit] at *
        simp [isDigit]
      rw [Bool.eq_false_iff]
      intro space
      exact absurd (not_word_of_space space) (by simp [word])
    · rintro rfl
      cases isDigit
    · rintro rfl
      cases isDigit
  cases ds : digits n with
  | nil => exact absurd ds (digits_ne_nil n)
  | cons u rest =>
    obtain ⟨notSpace, notMinus, notPlus⟩ := notSpecial u (digit u (ds ▸ List.mem_cons_self))
    rw [parseInt, List.dropWhile_cons_of_neg (by simp [notSpace])]
    dsimp only
    rw [if_neg notMinus, if_neg notPlus, ← ds, number]

theorem attributeOf_cons (key value : CodeUnits) (as : List (CodeUnits × CodeUnits))
    (rest : CodeUnits) (name : String) :
    attributeOf ⟨(key, value) :: as, rest⟩ name =
      if key = utf16 (" " ++ name ++ "=") then some (Escaping.decode htmlEntities value)
      else attributeOf ⟨as, rest⟩ name := by
  rw [attributeOf, List.find?_cons]
  by_cases same : key = utf16 (" " ++ name ++ "=")
  · simp only [same, decide_true, if_true, Option.map_some]
  · simp only [same, decide_false, if_false, attributeOf]

theorem messageOf_linkTag (n : TraceNode) :
    messageOf (linkTag n) = some ⟨n.file, some (n.line : Int)⟩ := by
  have anchor : isAnchor (linkTag n) = true := by
    show decide ((utf16 "a href=").take 2 = utf16 "a ") = true
    decide
  have file : attributeOf (linkTag n) "data-file" = some n.file := by
    rw [linkTag, attributeOf_cons, if_neg (by decide), attributeOf_cons, if_pos (by decide),
      decode_escHtml]
  have line : attributeOf (linkTag n) "data-line" = some (digits n.line) := by
    rw [linkTag, attributeOf_cons, if_neg (by decide), attributeOf_cons, if_neg (by decide),
      attributeOf_cons, if_pos (by decide), decode_digits]
  rw [messageOf, if_pos anchor, file, line, Option.map_some, Option.filter_some,
    if_pos (by simpa using digits_ne_nil n.line), Option.getD_some, parseInt_digits]

/-- The nodes of a trace below the call site. -/
def VtableTrace.nodes (t : VtableTrace) : List TraceNode :=
  t.compositionRoot :: (t.initImpl.toList ++ [t.implementation])

/-- The message that opens a node. -/
def navigateTo (n : TraceNode) : NavigateMessage := ⟨n.file, some (n.line : Int)⟩

theorem messages_nodeTags (nodeClass : String) (n : TraceNode) :
    (nodeTags nodeClass n).filterMap messageOf = [navigateTo n] := by
  have head : (nodeHeadTags nodeClass).filterMap messageOf = [] := rfl
  have rest : [templateTag [] "/a", templateTag [] "code", templateTag [] "/code", templateTag [] "/div",
      templateTag [] "/div"].filterMap messageOf = [] := by decide
  rw [nodeTags, List.filterMap_append, head, List.filterMap_cons_some (messageOf_linkTag n), rest]
  rfl

theorem messages_subtreeTags (t : VtableTrace) :
    (subtreeTags t).filterMap messageOf = t.nodes.map navigateTo := by
  have connector : connectorTags.filterMap messageOf = [] := by decide
  have init : (initImplTags t.initImpl).filterMap messageOf = t.initImpl.toList.map navigateTo := by
    cases t.initImpl with
    | none => rfl
    | some n => rw [initImplTags, List.filterMap_append, connector, messages_nodeTags]; rfl
  simp only [subtreeTags, List.filterMap_append, connector, messages_nodeTags, init, VtableTrace.nodes,
    List.map_cons, List.map_append, List.map_nil, List.nil_append, List.append_nil, List.cons_append]

theorem messages_subtreesTags (traces : List VtableTrace) :
    (subtreesTags traces).filterMap messageOf = (traces.flatMap VtableTrace.nodes).map navigateTo := by
  have opening : [templateTag [] "details open", templateTag [] "summary",
      templateTag [] "/summary"].filterMap messageOf = [] := by decide
  have closing : [templateTag [] "/details"].filterMap messageOf = [] := by decide
  have result : ∀ t, (resultTags t).filterMap messageOf = t.nodes.map navigateTo := by
    intro t
    rw [resultTags, List.filterMap_append, List.filterMap_append, opening, closing,
      messages_subtreeTags, List.nil_append, List.append_nil]
  have results : ∀ traces : List VtableTrace, (traces.flatMap resultTags).filterMap messageOf =
      (traces.flatMap VtableTrace.nodes).map navigateTo := by
    intro traces
    rw [List.filterMap_flatMap, List.map_flatMap]
    apply List.flatMap_congr
    exact fun t _ => result t
  rcases traces with _ | ⟨t, _ | ⟨t', traces⟩⟩
  · exact results []
  · rw [List.flatMap_singleton]
    exact messages_subtreeTags t
  · exact results _

theorem messages_pageTags (t : VtableTrace) (traces : List VtableTrace) (nonce : CodeUnits) :
    (pageTags t traces nonce).filterMap messageOf =
      (t.callSite :: (t :: traces).flatMap VtableTrace.nodes).map navigateTo := by
  have head : (headTags nonce).filterMap messageOf = [] := rfl
  have tail : (tailTags nonce).filterMap messageOf = [] := rfl
  rw [pageTags, List.filterMap_append, List.filterMap_append, List.filterMap_append, head, tail,
    messages_nodeTags, messages_subtreesTags]
  simp

/-- A node is opened on its line. -/
theorem opens_navigateTo (n : TraceNode) : (navigateTo n).opens = some ⟨n.file, n.line - 1⟩ := by
  have line : (max 0 ((n.line : Int) - 1)).toNat = n.line - 1 := by omega
  rw [NavigateMessage.opens, navigateTo, Option.map_some, line]

end Script

section Outline

/-- A tag without the file and the line that it links to. -/
def outlineOf (t : Tag UInt16) : Tag UInt16 :=
  ⟨t.attributes.map fun a =>
    if a.1 = utf16 " data-file=" ∨ a.1 = utf16 " data-line=" then (a.1, []) else a, t.rest⟩

/-- The tags of a page, but for what its links lead to. -/
def outline (page : CodeUnits) : List (Tag UInt16) := (tags html page).map outlineOf

def blankNode : TraceNode := ⟨[], [], 0, []⟩

/-- A trace with nothing in its nodes. -/
def VtableTrace.blank (t : VtableTrace) : VtableTrace :=
  ⟨blankNode, blankNode, t.initImpl.map fun _ => blankNode, blankNode⟩

theorem outline_nodeTags (nodeClass : String) (n : TraceNode) :
    (nodeTags nodeClass n).map outlineOf = (nodeTags nodeClass blankNode).map outlineOf := by
  have link : outlineOf (linkTag n) = outlineOf (linkTag blankNode) := rfl
  simp only [nodeTags, List.map_append, List.map_cons, link]

theorem outline_subtreeTags (t : VtableTrace) :
    (subtreeTags t).map outlineOf = (subtreeTags t.blank).map outlineOf := by
  have init : (initImplTags t.initImpl).map outlineOf = (initImplTags t.blank.initImpl).map outlineOf := by
    obtain ⟨callSite, compositionRoot, initImpl, implementation⟩ := t
    cases initImpl with
    | none => rfl
    | some n =>
      show (connectorTags ++ nodeTags "init-impl" n).map outlineOf =
        (connectorTags ++ nodeTags "init-impl" blankNode).map outlineOf
      rw [List.map_append, outline_nodeTags, ← List.map_append]
  simp only [subtreeTags, List.map_append, init, outline_nodeTags _ t.compositionRoot,
    outline_nodeTags _ t.implementation]
  rfl

theorem outline_subtreesTags (traces : List VtableTrace) :
    (subtreesTags traces).map outlineOf =
      (subtreesTags (traces.map VtableTrace.blank)).map outlineOf := by
  have results : ∀ traces : List VtableTrace, (traces.flatMap resultTags).map outlineOf =
      ((traces.map VtableTrace.blank).flatMap resultTags).map outlineOf := by
    intro traces
    induction traces with
    | nil => rfl
    | cons t traces ih =>
      rw [List.flatMap_cons, List.map_append, ih, List.map_cons, List.flatMap_cons, List.map_append,
        resultTags, resultTags, List.map_append, List.map_append, outline_subtreeTags]
      simp only [List.map_append]
  rcases traces with _ | ⟨t, _ | ⟨t', traces⟩⟩
  · rfl
  · exact outline_subtreeTags t
  · exact results (t :: t' :: traces)

theorem outline_pageTags (t : VtableTrace) (traces : List VtableTrace) (nonce : CodeUnits) :
    (pageTags t traces nonce).map outlineOf =
      (pageTags t.blank (traces.map VtableTrace.blank) nonce).map outlineOf := by
  rw [pageTags, pageTags, ← List.map_cons, List.map_append, List.map_append, List.map_append,
    outline_nodeTags, outline_subtreesTags]
  simp only [List.map_append]
  rfl

end Outline

/-- **The trace page.** The command reports an error, or shows a page. The links of the page open
the call site and the nodes of all locations, each with its file and line; and what else the tags
contain is that of a page with nothing in its nodes, whatever texts are shown. -/
theorem trace_page (index : NavigationIndex) (disk : Disk) (file : String) (line column : Nat)
    (lineText base64 : CodeUnits) :
    let result := resolve index file line column lineText none
    let callSite := callSiteNode file line lineText
    let traces := result.locations.map (traceOf index disk callSite)
    (result.found = false ∧ ∃ message,
      showTrace index disk file line column lineText base64 = some (.error message)) ∨
    ∃ page blankPage, showTrace index disk file line column lineText base64 = some (.panel page) ∧
      generateHtml (traces.map VtableTrace.blank) (generateNonce base64) = some blankPage ∧
      links page = (callSite :: traces.flatMap VtableTrace.nodes).map (fun n =>
        some ⟨n.file, n.line - 1⟩) ∧
      outline page = outline blankPage := by
  dsimp only
  have answers := resolve_answers index file line column lineText none
  cases found : (resolve index file line column lineText none).found with
  | false => exact .inl ⟨rfl, _, if_pos found⟩
  | true =>
    right
    cases located : (resolve index file line column lineText none).locations with
    | nil =>
      have none_located := answers.1
      rw [found, ← answers.2, located] at none_located
      cases none_located
    | cons l ls =>
      have plain := plain_generateNonce base64
      set callSite := callSiteNode file line lineText
      set t := traceOf index disk callSite l
      set traces := ls.map (traceOf index disk callSite)
      obtain ⟨page, generated, read⟩ := tags_generateHtml plain t traces
      obtain ⟨blankPage, blankGenerated, blankRead⟩ :=
        tags_generateHtml plain t.blank (traces.map VtableTrace.blank)
      refine ⟨page, blankPage, ?_, blankGenerated, ?_, ?_⟩
      · rw [showTrace, found, if_neg (by simp), located, List.map_cons]
        dsimp only
        rw [generated]
        rfl
      · rw [links, read, messages_pageTags, List.map_map]
        exact List.map_congr_left fun n _ => opens_navigateTo n
      · rw [outline, outline, read, blankRead, outline_pageTags]

end LibJuno.Providers
