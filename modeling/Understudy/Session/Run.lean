import Understudy.Session.Change
import Understudy.Session.Load

/-!
Runs of a session. A request asks a loader for a class and is answered. A change sets something up
or sets it otherwise: files, entries, loaders and how they work. A run is any sequence of the two,
in any order, and yields what was replied to the requests, in order, and the session that results.
-/

namespace Understudy

/-- A request to a loader for a class. -/
inductive Request where
  | load (id : LoaderId) (name : String)
  | find (id : LoaderId) (name : String)
  | define (id : LoaderId) (d : Definition)

namespace Request

/-- The name that a class is asked for under. -/
def name : Request → String
  | load _ name => name
  | find _ name => name
  | define _ d => d.name

/-- The loader that is asked. -/
def loader : Request → LoaderId
  | load id _ => id
  | find id _ => id
  | define id _ => id

/-- The answer to a request, and the session that follows. -/
def perform : Request → Session → Outcome DefinedClass
  | load id name, s => s.load id name
  | find id name, s => s.find id name
  | define id d, s => s.define id d

end Request

/-- A change of a session in which no class is asked for. A chain may be given anew before every
request: that is how a unit that remembers earlier classes takes part in a run. -/
inductive Change where
  | putFiles (files : FileTree)
  | addEntry (holding : Holding)
  | insertClass (entry : EntryId) (name : String) (bytes : Bytes)
  | insertResource (entry : EntryId) (path : String) (bytes : Bytes)
  | addHost (entries : List EntryId)
  | addResourceLoader (root lead : String)
  | addSelective (config : Setup)
  | appendTo (id : LoaderId) (entry : EntryId)
  | setChain (id : LoaderId) (chain : Chain)
  | setDeferred (id target : LoaderId)
  | addInterceptor (id : LoaderId) (interceptor : Interceptor)
  | addIgnores (id : LoaderId) (patterns : List String)

/-- The session after a change. -/
def Change.perform : Change → Session → Session
  | putFiles files, s => { s with files := files }
  | addEntry holding, s => (s.addEntry holding).2
  | insertClass entry name bytes, s => s.updateEntry entry (·.insertClass name bytes)
  | insertResource entry path bytes, s => s.updateEntry entry (·.insertResource path bytes)
  | addHost entries, s => (s.addHost entries).2
  | addResourceLoader root lead, s => (s.addResourceLoader root lead).2
  | addSelective config, s => (s.addSelective config).2
  | appendTo id entry, s => s.appendTo id entry
  | setChain id chain, s => s.setChain id chain
  | setDeferred id target, s => s.setDeferred id target
  | addInterceptor id interceptor, s => s.addInterceptor id interceptor
  | addIgnores id patterns, s => s.addIgnores id patterns

/-- What happens to a session. -/
inductive Operation where
  | request (request : Request)
  | change (change : Change)

/-- A request, and the answer to it. -/
structure Reply where
  request : Request
  answer : Except Error DefinedClass

namespace Session

/-- Lets operations happen in order: the replies to the requests, and the session that results. -/
def run : List Operation → Session → List Reply × Session
  | [], s => ([], s)
  | .request request :: rest, s =>
    let (answer, s) := request.perform s
    let (replies, s) := run rest s
    (⟨request, answer⟩ :: replies, s)
  | .change change :: rest, s => run rest (change.perform s)

end Session

end Understudy
