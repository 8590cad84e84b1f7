import Scratchpad.Catalog

/-! The presets that are there unless others are given: a greeting, a counting game and a recursive
function.
-/

namespace Scratchpad.Catalog

/-- A program that prints a greeting. -/
def helloWorld : Preset where
  name := "Hello world"
  text :=
    "let greeting = \"Hello, world!\";\n" ++
    "\n" ++
    "println greeting\n"

/-- A program that counts to a hundred and replaces multiples of three and of five. -/
def fizzBuzz : Preset where
  name := "FizzBuzz"
  text :=
    "let fizzbuzz = fun n ->\n" ++
    "  if n / 15 * 15 == n then \"FizzBuzz\"\n" ++
    "  else if n / 5 * 5 == n then \"Buzz\"\n" ++
    "  else if n / 3 * 3 == n then \"Fizz\"\n" ++
    "  else str_of_int n;\n" ++
    "\n" ++
    "let rec loop = fun i ->\n" ++
    "  if i == 101 then ()\n" ++
    "  else let _ = println (fizzbuzz i) in loop (i + 1);\n" ++
    "\n" ++
    "loop 1\n"

/-- A program that prints the factorial of ten. -/
def factorial : Preset where
  name := "factorial"
  text :=
    "let rec factorial = fun n ->\n" ++
    "  if n == 0 then 1\n" ++
    "  else n * factorial (n - 1);\n" ++
    "\n" ++
    "println (str_of_int (factorial 10))\n"

/-- The catalog of the three. -/
def builtin : Catalog where
  presets := [helloWorld, fizzBuzz, factorial]
  nonempty := by simp
  distinct := by decide

end Scratchpad.Catalog
