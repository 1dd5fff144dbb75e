import EBeacon.Library.Text

namespace EBeacon

-- the lines of a message in the order of their arrival, under canonical names
abbrev Header := List (String × String)

namespace Header

def values (h : Header) (name : String) : List String := (h.filter (fun l => l.1 = name)).map Prod.snd

def get (h : Header) (name : String) : String := (h.values name).head?.getD ""

end Header

end EBeacon
