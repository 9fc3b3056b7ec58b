import OnchainSchema.Compile

/-! Sessions: requests that share one cache, each on the source as it is by then. -/
namespace OnchainSchema

inductive Request where
  | load (file : String) (base : Path)
  | loadRoot (file : Path)
  | resolve (site : Site) (ref : String)
  | expand (site : Site) (property : Json)
  | build (site : Site) (properties : Members)
  | compile (site : Site) (options : Options)
  | compileFile (file : Path) (options : Options)

inductive Reply where
  | found (document : Option Json)
  | root (document : Except LoadError Json)
  | property (expanded : Json)
  | build (b : Build)
  | compilation (c : Except CompileError Compilation)

def Request.perform : Request → Fetch Reply
  | .load file base => return .found (← Fetch.load file base)
  | .loadRoot file => return .root (← Fetch.loadRoot file)
  | .resolve site ref => return .found (← Ref.resolve site ref)
  | .expand site property => return .property (← Ref.expand site property)
  | .build site properties => return .build (← Build.ofProperties site properties)
  | .compile site options => return .compilation (← OnchainSchema.compile site options)
  | .compileFile file options => return .compilation (← OnchainSchema.compileFile file options)

namespace Session

/-- The outcomes of requests that are performed one after the other. -/
def run (c : Cache) : List (Source × Request) → List (Outcome Reply)
  | [] => []
  | (s, r) :: rest => r.perform.run s c :: run (r.perform.run s c).cache rest

/-- The cache after the requests. -/
def cacheAfter (c : Cache) (requests : List (Source × Request)) : Cache :=
  requests.foldl (fun c q => (q.2.perform.run q.1 c).cache) c

end Session

end OnchainSchema
