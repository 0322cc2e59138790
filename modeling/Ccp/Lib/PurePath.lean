import Ccp.Lib.PosixPath
import Mathlib.Data.List.Infix

namespace Ccp.Lib

-- PurePosixPath of pathlib: the slashes it begins with and its parts.
structure PurePath where
  slashes : ℕ
  parts : List (List Char)
deriving DecidableEq

namespace PurePath

def ofStr (s : List Char) : PurePath where
  slashes := PosixPath.initialSlashes s
  parts := (s.splitOn '/').filter fun part => part ≠ [] ∧ part ≠ ['.']

def str (p : PurePath) : List Char :=
  if p.slashes = 0 ∧ p.parts = [] then ['.']
  else List.replicate p.slashes '/' ++ ['/'].intercalate p.parts

-- p / s, where an absolute path takes the place of the first.
def join (p : PurePath) (s : List Char) : PurePath :=
  if (ofStr s).slashes = 0 then ⟨p.slashes, p.parts ++ (ofStr s).parts⟩ else ofStr s

def parent (p : PurePath) : PurePath := ⟨p.slashes, p.parts.dropLast⟩

-- Nothing where relative_to raises a ValueError.
def relativeTo (p other : PurePath) : Option PurePath :=
  if p.slashes = other.slashes ∧ other.parts <+: p.parts then some ⟨0, p.parts.drop other.parts.length⟩ else none

-- quote of urllib.parse, for a path.

def isSafe (c : Char) : Bool := c.isAlphanum ∨ c ∈ "_.-~/".toList

def hexDigit (n : ℕ) : Char := (Nat.digitChar n).toUpper

def quoteByte (b : UInt8) : List Char := ['%', hexDigit (b.toNat / 16), hexDigit (b.toNat % 16)]

def quote (s : List Char) : List Char :=
  s.flatMap fun c => if isSafe c then [c] else (String.utf8EncodeChar c).flatMap quoteByte

-- Nothing where as_uri raises a ValueError.
def asUri (p : PurePath) : Option (List Char) :=
  if p.slashes = 0 then none else some ("file://".toList ++ quote p.str)

end PurePath

-- What urlparse says of the scheme and of the path.
structure ParseResult where
  scheme : List Char
  path : List Char
deriving DecidableEq

def isSchemeChar (c : Char) : Bool := c.isAlphanum ∨ c ∈ "+-.".toList

-- The text before the first colon, where it can be a scheme, and what is left.
def splitScheme (url : List Char) : List Char × List Char :=
  let front := url.takeWhile (· ≠ ':')
  if front.length < url.length ∧ front.head?.any Char.isAlpha ∧ front.all isSchemeChar then
    (front.map Char.toLower, url.drop (front.length + 1))
  else ([], url)

def dropNetloc (url : List Char) : List Char :=
  if ['/', '/'].isPrefixOf url then (url.drop 2).dropWhile fun c => c ≠ '/' ∧ c ≠ '?' ∧ c ≠ '#' else url

-- The parameters begin at the first semicolon of the last element.
def dropParams (path : List Char) : List Char :=
  let last := PosixPath.basename path
  path.take (path.length - last.length) ++ last.takeWhile (· ≠ ';')

-- Without the check of the netloc, which only a URL with one can fail.
def urlparse (url : List Char) : ParseResult :=
  let clean := (url.dropWhile fun c => c.toNat ≤ 32).filter fun c => c ≠ '\t' ∧ c ≠ '\r' ∧ c ≠ '\n'
  let split := splitScheme clean
  ⟨split.1, dropParams (((dropNetloc split.2).takeWhile (· ≠ '#')).takeWhile (· ≠ '?'))⟩

example : urlparse "https://x.org/a/b.xsd?c#d".toList = ⟨"https".toList, "/a/b.xsd".toList⟩ := by decide +kernel

end Ccp.Lib
