import MicroScheme.Path

set_option autoImplicit false

/-!
The bootstrap library: definitions in the language itself that a session starts with, and where else they
may be read from.
-/

namespace MicroScheme.Library

def text : String :=
  ";; -----------------------
;; Bootstrap library, evaluated into the root environment form by form
;; -----------------------

;; `else` reads as true outside cond as well
(define else #t)

;; -----------------------
;; Comparison
;; -----------------------
(define >= (lambda (a b) (not (< a b))))
(define <= (lambda (a b) (not (> a b))))

;; -----------------------
;; Lists
;; -----------------------
(define head car)
(define tail cdr)

(define null? (lambda (xs) (= (length xs) 0)))

(define map
  (lambda (f xs)
    (if (null? xs)
        (list)
        (cons (f (car xs)) (map f (cdr xs))))))
"

/-- A directory that may hold a library file, by its components from the root of the file system. Beside it
only the directories on the way to it are known. -/
structure Directory where
  components : List String
  file : Option String

namespace Directory

def walk (d : Directory) (here : List String) : List String → Option (List String)
  | [] => some here
  | name :: rest =>
    if name = ".." then walk d here.dropLast rest
    else if (here ++ [name]).isPrefixOf d.components then walk d (here ++ [name]) rest
    else none

def resolve? (d : Directory) (p : Path) : Option (List String) :=
  if p.slashes = 0 then none else d.walk [] p.components

def read? (d : Directory) (p : Path) : Option String :=
  if d.resolve? p = some d.components then d.file else none

end Directory

def unifyNewlines : List Char → List Char
  | [] => []
  | '\r' :: '\n' :: cs => '\n' :: unifyNewlines cs
  | c :: cs => (if c = '\r' then '\n' else c) :: unifyNewlines cs

/-- The text of the library, given the setting that says where it is. The setting names a directory, or a
file in one; without it the library is the one that comes with the evaluator. -/
def source? (setting : Option String) (d : Directory) : Option String :=
  match Setting.content? setting with
  | none => some text
  | some raw =>
    let p := Path.ofText raw
    let place := if (d.resolve? p).isSome then p else p.parent
    (d.read? place).map fun s => String.ofList (unifyNewlines s.toList)

end MicroScheme.Library
