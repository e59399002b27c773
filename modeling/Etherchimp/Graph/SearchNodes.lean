import Etherchimp.Capture.Decode
import Etherchimp.Graph.Filter

/-!
# Substring search over the nodes

What the search box falls back to when a query is no filter: the lowercase query is
looked up in every node's precomputed haystack. The haystack is never rebuilt here.
-/

namespace Etherchimp

variable [RuneCase]

/-- `strings.Contains`. -/
def containsString (s substr : String) : Bool := substr.toList <:+: s.toList

/-- The haystack of a node, its id when none was ever built. -/
def haystack (id : String) (n : Node) : String :=
  if n.searchCorpus = "" then toLower id else n.searchCorpus

/-- Up to `limit` nodes whose haystack contains the query, busiest first. -/
def searchNodes (go : Runtime) (m : Manager) (query : String) (limit : Int) : List SearchResult :=
  let q := toLower (trimSpace query)
  if q = "" then []
  else
    let limit := if limit ≤ 0 then 20 else limit.toNat
    let out := ((go.rangeOf m.nodes).filter fun e => containsString (haystack e.1 e.2) q).map
      fun e => searchResult e.1 e.2
    (go.sortSlice busierResult out).take limit

end Etherchimp
