import Gmeow.Runes

/-!
# Writing Turtle

The importers write statements one to a line, an IRI in angle brackets with the runes escaped that
may not stand there.

* `iri`, `writeTriple` — the writers;
* `gmeowTerm`, `schemaTerm`, … — terms of the vocabularies;
* `textLines` — the lines of a text;
* `shortHash` — what nodes are named by.
-/

namespace Gmeow.Contacts

open Runes

/-! ## The writers -/

/-- A rune that is escaped in an IRI. -/
def escapedInIRI (c : Char) : Bool :=
  c.toNat ≤ 0x20 || c.toNat = 0x7f || "<>\"\x7b\x7d|\\^\x60".toList.contains c

/-- A hexadecimal digit. -/
def hexDigit (n : Nat) : Char := "0123456789ABCDEF".toList.getD n '0'

/-- `url.QueryEscape` of one of these runes. -/
def queryEscape (c : Char) : Runes :=
  if c = ' ' then ['+'] else ['%', hexDigit (c.toNat / 16), hexDigit (c.toNat % 16)]

/-- `encodeIRI`. -/
def encodeIRI (value : Runes) : Runes :=
  (value.flatMap fun c => if escapedInIRI c then queryEscape c else [c]).flatMap
    fun c => if c = '+' then ['%', '2', '0'] else [c]

/-- A text in angle brackets. -/
def bracketed (value : Runes) : Runes := '<' :: (value ++ ['>'])

/-- `iri`. -/
def iri (value : Runes) : Runes :=
  let value := trim value
  bracketed (encodeIRI (if value.head? = some '<' ∧ value.getLast? = some '>' then
    trim (trimSuffix ['>'] (trimPrefix ['<'] value)) else value))

/-- A line with three terms. -/
def tripleLine (subject predicate object : Runes) : Runes :=
  subject ++ ' ' :: (predicate ++ ' ' :: (object ++ [' ', '.']))

/-- `writeTriple`. -/
def writeTriple (subject predicate object : Runes) : Runes :=
  tripleLine (iri subject) (iri predicate) object ++ ['\n']

/-! ## Vocabularies -/

/-- `TypePredicate`. -/
def rdfTypePredicate : Runes := "http://www.w3.org/1999/02/22-rdf-syntax-ns#type".toList

/-- A term of the ontology. -/
def gmeowTerm (name : String) : Runes := ("https://blackcatinformatics.ca/gmeow/" ++ name).toList

/-- A term of the time ontology. -/
def timeTerm (name : String) : Runes := ("http://www.w3.org/2006/time#" ++ name).toList

/-- A term of the schema ontology. -/
def schemaTerm (name : String) : Runes := ("https://schema.org/" ++ name).toList

/-- A term of XML Schema. -/
def xsdTerm (name : String) : Runes := ("http://www.w3.org/2001/XMLSchema#" ++ name).toList

/-! ## Lines and hashes -/

/-- The lines of a text, without their line feeds; `line` is the one under way, turned round. -/
def textLines : Runes → Runes → List Runes
  | [], [] => []
  | [], line => [line.reverse]
  | c :: rest, line =>
    if c = '\n' then line.reverse :: textLines rest [] else textLines rest (c :: line)

/-- `shortHash`. -/
def shortHash (sha : Runes → Runes) (content : Runes) : Runes := (sha content).take 16

end Gmeow.Contacts
