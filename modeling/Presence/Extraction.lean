import Presence.Block.Builder
import Presence.Log
import Presence.SourceTree
import Presence.Text.Lines

/-! Extracting the blocks of texts, files and standard input. -/
namespace Presence

open Text

structure SourceBlocks where
  path : String
  blocks : List Block

/-- What ends a whole run and not only the work on one file. -/
inductive Abort
  | digitLimit (e : DigitLimitError)
  | nulInName
  deriving DecidableEq, Repr

def Abort.message : Abort → String
  | .digitLimit e => e.message
  | .nulInName => "embedded null byte"

inductive ExtractionError
  | reported (d : Diagnostic)
  | aborted (a : Abort)
  deriving DecidableEq, Repr

structure Extraction where
  records : List LogRecord
  outcome : Except ExtractionError SourceBlocks

namespace Extraction

def stdinName : String := "<stdin>"

/-- The channel of extractions when logging is asked for by no other name. -/
def channelName : String := LogChannel.toolName ++ ".extractor"

def prepend (records : List LogRecord) (e : Extraction) : Extraction :=
  { e with records := records ++ e.records }

def ofRead (channel : Option LogChannel) (path : String)
    (r : Except ReadError (List Block)) : Extraction :=
  match r with
  | .ok blocks =>
    ⟨logged channel .debug
      ("found " ++ toString blocks.length ++ " top-level blocks in " ++ path), .ok ⟨path, blocks⟩⟩
  | .error (.format e) =>
    ⟨logged channel .debug ("failed to parse " ++ path ++ ": " ++ e.message),
      .error (.reported ⟨"parse", path, e.problem.message, some e.line⟩)⟩
  | .error (.digitLimit e) => ⟨[], .error (.aborted (.digitLimit e))⟩

def ofLines (o : Context) (channel : Option LogChannel) (path : String)
    (lines : List (List Char)) : Extraction :=
  ofRead channel path (readBlocks o path lines)

def ofText (o : Context) (channel : Option LogChannel) (path : String)
    (text : List Char) : Extraction :=
  ofLines o channel path (splitLines text)

/-- A file or standard input, called `source` in the message, that cannot be read. -/
def unreadable (path source message : String) : Extraction :=
  ⟨[], .error (.reported { stage := "read", file := path
                           message := "Can't read " ++ source ++ ": " ++ message })⟩

/-- The bytes of a file. Before a piece of them that shows a fault, the settled lines of the pieces
before it are read, and what is wrong in those lines comes first. -/
def ofBytes (o : Context) (channel : Option LogChannel) (path source : String)
    (bytes : List UInt8) : Extraction :=
  let decoded := Utf8.decode bytes
  match decoded.fault with
  | none => ofText o channel path (unifyNewlines decoded.text)
  | some fault =>
    let before := fault.piecesBefore bytes
    let lines := (LineReader.feedAll {} (settledLines (Utf8.decode before).text)).2
    match (Builder.acceptAll {} o path lines).2 with
    | some e => ofRead channel path (.error e)
    | none => unreadable path source (fault.behind before).message

/-- Where a target lies: below the source tree, if there is one. -/
def resolve (sourceTree : Option String) (target : String) : Path :=
  match sourceTree with
  | none => .ofString target
  | some tree => (Path.ofString target).below (.ofString tree)

/-- A file; `contents` says what is found under a path. -/
def ofFile (o : Context) (channel : Option LogChannel) (sourceTree : Option String)
    (contents : Path → Except OpenError (List UInt8)) (target : String) : Extraction :=
  let resolved := resolve sourceTree target
  let extraction :=
    if resolved.text.toList.contains '\x00' then ⟨[], .error (.aborted .nulInName)⟩
    else match contents resolved with
      | .ok bytes => ofBytes o channel target resolved.text bytes
      | .error e => unreadable target resolved.text (e.message resolved)
  extraction.prepend (logged channel .debug ("extracting blocks from " ++ resolved.text))

end Extraction

inductive Stdin
  | text (s : List Char)
  | bytes (bs : List UInt8)

/-- All of the bytes are decoded before any line is read. The text is then passed on, which takes a
call more than reading a file does. -/
def Extraction.ofStdin (o : Context) (channel : Option LogChannel) (input : Stdin) : Extraction :=
  match input with
  | .text s => ofText o.below channel stdinName s
  | .bytes bs =>
    let decoded := Utf8.decode bs
    match decoded.fault with
    | none => ofText o.below channel stdinName (unifyNewlines decoded.text)
    | some fault => unreadable stdinName stdinName fault.message

end Presence
