import MarkedValues.Call.Table
import MarkedValues.Regex.Automaton
import MarkedValues.Standard.Arithmetic
import MarkedValues.Standard.Casts
import MarkedValues.Standard.Choice
import MarkedValues.Standard.Environment
import MarkedValues.Standard.Mappings
import MarkedValues.Standard.Network
import MarkedValues.Standard.Patterns
import MarkedValues.Standard.Scanning
import MarkedValues.Standard.Sensitivity
import MarkedValues.Standard.Sequences
import MarkedValues.Standard.SetAlgebra
import MarkedValues.Standard.Strings

/-!
The standard functions, each under its own name, over any engine of regular expressions.
-/
namespace MarkedValues.Standard

open Regex (Engine)

variable (engine : Engine)

def functions : List Function :=
  [abs, alltrue, anytrue, ceil, chomp, chunklist, cidrcontains, cidrhost, cidrnetmask, cidrsubnet,
   cidrsubnets, coalesce, coalescelist, compact, compliment, concat, contains, distinct, element,
   endswith, env, flatten, floor, indent, index, issensitive, join, keys, length, log, lookup,
   lower, matchkeys, max, merge, min, nonsensitive, parseint, pow, range, regex engine,
   regex_replace engine, regexall engine, replace engine, reverse, sensitive, setintersection,
   setsubtract, setsymmetricdifference, setunion, signum, slice, sort, split, startswith,
   strcontains, strrev, substr, sum, title, tobool, tolist, tomap, tonumber, toset, tostring,
   transpose, trim, trimprefix, trimspace, trimsuffix, upper, values, zipmap]

def table : FunctionTable := .ofList (functions engine)

end MarkedValues.Standard

namespace MarkedValues

abbrev standardTable : FunctionTable := Standard.table Regex.automaton

end MarkedValues
