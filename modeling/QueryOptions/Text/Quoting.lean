/-! Following quotations through a text, character by character. -/

namespace QueryOptions.Text

inductive Quoting
  | outside
  | inside (quote : Char)
  | escaped (quote : Char)
deriving DecidableEq

def isQuote (c : Char) : Bool :=
  c == '\'' || c == '"'

def Quoting.step : Quoting → Char → Quoting
  | outside, c => if isQuote c then inside c else outside
  | inside quote, c =>
      if c = '\\' then escaped quote else if c = quote then outside else inside quote
  | escaped quote, _ => inside quote

end QueryOptions.Text
