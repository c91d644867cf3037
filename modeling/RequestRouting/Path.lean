import RequestRouting.Text.Percent
import RequestRouting.Text.Utf8

/-!
Request paths.

A request is matched by its key: percent escapes are decoded, the query is cut off, slashes at both
ends are taken away and one slash is put in front. Escapes are decoded first, so an escaped question
mark also ends the path.
-/

namespace RequestRouting.Path

/-- Whether a path is its own key without looking further. -/
def isNormalized (path : String) : Bool :=
  let cs := path.toList
  cs == ['/'] ||
    (cs.head? == some '/' && cs[1]? != some '/' && cs.getLast? != some '/' &&
      cs.all fun c => c != '%' && c != '?')

/-- Decodes percent escapes; what is no UTF-8 then is replaced. -/
def decode (cs : List Char) : List Char :=
  if cs.contains '%' then Text.ofUtf8Lossy (Text.percentDecode (Text.utf8 cs)) else cs

def isSlash (c : Char) : Bool := c == '/'

/-- The characters between the slashes at both ends. -/
def trimSlashes (cs : List Char) : List Char :=
  ((cs.dropWhile isSlash).reverse.dropWhile isSlash).reverse

/-- The key of a request path. -/
def normalize (path : String) : String :=
  if isNormalized path then path
  else String.ofList ('/' :: trimSlashes ((decode path.toList).takeWhile (· != '?')))

end RequestRouting.Path
