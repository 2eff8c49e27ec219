import LibJuno.Lib.Escaping
import LibJuno.Resolver.FailureHandlerResolver
import LibJuno.Resolver.VtableResolver

/-!
# The trace of a vtable call

`providers/vtableTraceProvider.ts`. The answer of the resolver becomes a page: the call site,
and for every location its composition root, the place of its initialisation when that is
known, and the implementation. The base-64 text of the random number that the nonce is cut from
is a parameter. A message of the page opens a document on a line, counted from 0.
-/

namespace LibJuno.Providers

open Indexer Resolver

structure TraceNode where
  label : CodeUnits
  file : CodeUnits
  line : Nat
  detail : CodeUnits
deriving DecidableEq

structure VtableTrace where
  callSite : TraceNode
  compositionRoot : TraceNode
  initImpl : Option TraceNode
  implementation : TraceNode

section Page

/-- What `escHtml` replaces, in this order. -/
def htmlEntities : Escaping.Table UInt16 :=
  [(38, utf16 "&amp;"), (60, utf16 "&lt;"), (62, utf16 "&gt;"), (34, utf16 "&quot;")]

def escHtml (s : CodeUnits) : CodeUnits :=
  htmlEntities.foldl (fun s e => Escaping.replaceAll e.1 e.2 s) s

def isAlphanumeric (u : UInt16) : Bool :=
  (97 ≤ u && u ≤ 122) || (65 ≤ u && u ≤ 90) || (48 ≤ u && u ≤ 57)

/-- `generateNonce`, from the base-64 text of a random number. -/
def generateNonce (base64 : CodeUnits) : CodeUnits := (base64.filter isAlphanumeric).take 16

/-- A number in a template. -/
def digits (n : Nat) : CodeUnits := utf16 (toString n)

/-- The link of a node. -/
def linkHtml (n : TraceNode) : CodeUnits :=
  utf16 "<a href=\"#\" data-file=\"" ++ escHtml n.file ++ utf16 "\" data-line=\"" ++ digits n.line ++
    utf16 "\">" ++ escHtml n.file ++ utf16 ":" ++ digits n.line ++ utf16 "</a>"

/-- A node, up to its link. -/
def nodeHead (nodeClass icon title indent : String) : CodeUnits :=
  (utf16 "<div class=\"trace-node " ++ utf16 nodeClass ++ utf16 "\">\n") ++
    (utf16 indent ++ utf16 "  <span class=\"node-icon\">" ++ utf16 icon ++ utf16 "</span>\n") ++
    (utf16 indent ++ utf16 "  <span class=\"node-label\">" ++ utf16 title ++ utf16 "</span>\n") ++
    (utf16 indent ++ utf16 "  <div class=\"node-detail\">\n") ++
    (utf16 indent ++ utf16 "    ")

/-- A node; the four kinds differ in their class, icon and title. -/
def nodeHtml (nodeClass icon title indent : String) (n : TraceNode) : CodeUnits :=
  (nodeHead nodeClass icon title indent ++ linkHtml n ++ utf16 "\n") ++
    (utf16 indent ++ utf16 "    <code>" ++ escHtml n.detail ++ utf16 "</code>\n") ++
    (utf16 indent ++ utf16 "  </div>\n") ++
    (utf16 indent ++ utf16 "</div>")

/-- The line from a node to the next. -/
def connector : CodeUnits := utf16 "\n  <div class=\"trace-connector\">│</div>\n  "

def initImplHtml (initImpl : Option TraceNode) : CodeUnits :=
  match initImpl with
  | some n => connector ++ nodeHtml "init-impl" "⚙" "Initialization Implementation" "  " n
  | none => []

def buildSubtreeHtml (t : VtableTrace) : CodeUnits :=
  connector ++ nodeHtml "composition-root" "🔗" "Composition Root" "  " t.compositionRoot ++
    initImplHtml t.initImpl ++
    connector ++ nodeHtml "implementation" "⚡" "Implementation" "  " t.implementation

/-- One of several results. -/
def resultHtml (x : VtableTrace × Nat) : CodeUnits :=
  utf16 "\n  <details open>\n    <summary>Result " ++ digits (x.2 + 1) ++ utf16 ": " ++
    escHtml x.1.implementation.label ++ utf16 "</summary>" ++ buildSubtreeHtml x.1 ++
    utf16 "\n  </details>"

def subtreesHtml (traces : List VtableTrace) : CodeUnits :=
  match traces with
  | [t] => buildSubtreeHtml t
  | _ => traces.zipIdx.flatMap resultHtml

/-- The page up to the nonce of its policy. -/
def pageStart : CodeUnits := utf16 "<!DOCTYPE html>
<html lang=\"en\">
<head>
  <meta charset=\"UTF-8\">
  <meta http-equiv=\"Content-Security-Policy\" content=\"default-src 'none'; script-src 'nonce-"

/-- The end of the policy. -/
def pagePolicy : CodeUnits := utf16 "'; style-src 'unsafe-inline';" ++ utf16 "\">"

/-- The page from there to the call site. -/
def pageStyle : CodeUnits := utf16 "
  <meta name=\"viewport\" content=\"width=device-width, initial-scale=1.0\">
  <title>Vtable Resolution Trace</title>
  <style>
    body \x7b font-family: var(--vscode-font-family, monospace); padding: 16px; \x7d
    .trace-tree \x7b margin: 0; padding: 0; \x7d
    .trace-node \x7b border: 1px solid var(--vscode-panel-border, #444); border-radius: 4px; padding: 8px 12px; margin: 4px 0; \x7d
    .trace-node.call-site \x7b border-left: 3px solid #569cd6; \x7d
    .trace-node.composition-root \x7b border-left: 3px solid #ce9178; \x7d
    .trace-node.init-impl \x7b border-left: 3px solid #dcdcaa; \x7d
    .trace-node.implementation \x7b border-left: 3px solid #4ec9b0; \x7d
    .node-icon \x7b margin-right: 6px; \x7d
    .node-label \x7b font-weight: bold; margin-right: 8px; \x7d
    .node-detail \x7b margin-top: 6px; font-size: 0.9em; \x7d
    .node-detail a \x7b display: block; color: var(--vscode-textLink-foreground, #4fc1ff); text-decoration: none; cursor: pointer; \x7d
    .node-detail a:hover \x7b text-decoration: underline; \x7d
    .node-detail code \x7b display: block; margin-top: 2px; color: var(--vscode-editor-foreground, #d4d4d4); \x7d
    .trace-connector \x7b color: var(--vscode-descriptionForeground, #888); padding: 2px 16px; \x7d
    details \x7b margin: 8px 0; \x7d
    summary \x7b cursor: pointer; font-weight: bold; padding: 4px 0; \x7d
  </style>
</head>
<body>
  <h2>Vtable Resolution Trace</h2>
  <div class=\"trace-tree\">
    "

/-- The page from the last subtree to the nonce of its script. -/
def pageTail : CodeUnits := utf16 "
  </div>
  <script nonce=\""

/-- The script of the page, and the end. -/
def pageScript : CodeUnits := utf16 "
    (function() \x7b
      const vscode = acquireVsCodeApi();
      document.addEventListener('click', function(e) \x7b
        const target = e.target && e.target.closest('a[data-file]');
        if (!target) \x7b return; \x7d
        e.preventDefault();
        const file = target.getAttribute('data-file');
        const line = parseInt(target.getAttribute('data-line') || '1', 10);
        vscode.postMessage(\x7b type: 'navigate', file: file, line: line \x7d);
      \x7d);
    \x7d)();
  </script>
</body>
</html>"

/-- `generateHtml`, which reads the call site of the first trace. -/
def generateHtml (traces : List VtableTrace) (nonce : CodeUnits) : Option CodeUnits :=
  match traces with
  | [] => none
  | t :: _ =>
    some ((pageStart ++ nonce ++ pagePolicy) ++ pageStyle ++
      nodeHtml "call-site" "📍" "Call Site" "    " t.callSite ++ subtreesHtml traces ++
      (pageTail ++ nonce ++ utf16 "\">") ++ pageScript)

end Page

section Trace

/-- `readSourceLine`. -/
def readSourceLine (disk : Disk) (file : String) (line : Nat) : CodeUnits :=
  match disk file with
  | some text => if line = 0 then [] else trim ((splitLines (utf16 text))[line - 1]?.getD [])
  | none => []

/-- The node of a place in a file, with the text of the line. -/
def placeNode (disk : Disk) (functionName file : String) (line : Nat) : TraceNode :=
  ⟨utf16 functionName, utf16 file, line, readSourceLine disk file line⟩

def compositionRootNode (disk : Disk) (location : ConcreteLocation) : TraceNode :=
  placeNode disk location.functionName
    (((location.compRootFile.or location.initCallFile).or location.assignmentFile).getD "unknown")
    (((location.compRootLine.or location.initCallLine).or location.assignmentLine).getD 0)

/-- The node of the initialisation, when its file and that of its caller are known. -/
def initImplNode (disk : Disk) (location : ConcreteLocation) : Option TraceNode :=
  match location.compRootFile.filter (· ≠ ""), location.initCallFile.filter (· ≠ "") with
  | some _, some initImplFile =>
    some (placeNode disk location.functionName initImplFile (location.initCallLine.getD 0))
  | _, _ => none

/-- The signature of the first definition, if it has one. -/
def signatureOf (index : NavigationIndex) (functionName : String) : String :=
  match index.functionDefinitions.listAt functionName with
  | d :: _ => d.signature.getD functionName
  | [] => functionName

def implementationNode (index : NavigationIndex) (location : ConcreteLocation) : TraceNode :=
  ⟨utf16 location.functionName, utf16 location.file, location.line,
    utf16 (signatureOf index location.functionName)⟩

/-- The node of the call that is traced. -/
def callSiteNode (file : String) (line : Nat) (lineText : CodeUnits) : TraceNode :=
  ⟨trim lineText, utf16 file, line, trim lineText⟩

def traceOf (index : NavigationIndex) (disk : Disk) (callSite : TraceNode)
    (location : ConcreteLocation) : VtableTrace :=
  ⟨callSite, compositionRootNode disk location, initImplNode disk location,
    implementationNode index location⟩

/-- What the command shows. -/
inductive TraceView where
  | error (message : String)
  | panel (html : CodeUnits)
deriving DecidableEq

/-- `showTrace`; nothing when there is no first trace to read. -/
def showTrace (index : NavigationIndex) (disk : Disk) (file : String) (line column : Nat)
    (lineText base64 : CodeUnits) : Option TraceView :=
  let result := resolve index file line column lineText none
  if result.found = false then
    some (.error (result.errorMsg.getD "Could not resolve vtable call."))
  else
    let traces := result.locations.map (traceOf index disk (callSiteNode file line lineText))
    (generateHtml traces (generateNonce base64)).map .panel

/-- A message of the page; the line is missing when it is not a number. -/
structure NavigateMessage where
  file : CodeUnits
  line : Option Int
deriving DecidableEq

/-- A document, opened on a line. -/
structure Opened where
  file : CodeUnits
  line : Nat
deriving DecidableEq

/-- The handler of the messages; a line that is not a number makes no range. -/
def NavigateMessage.opens (message : NavigateMessage) : Option Opened :=
  message.line.map fun line => ⟨message.file, (max 0 (line - 1)).toNat⟩

end Trace

end LibJuno.Providers
