import BlockScript.Json.Writer
import BlockScript.World.Basic

namespace BlockScript

def Vec3.toJson (v : Vec3) : Json :=
  .list [.number (.single v.x), .number (.single v.y), .number (.single v.z)]

def Actor.snapshot (actor : Actor) : Json :=
  let t := actor.appearance.transform
  .object
    [("id", .text actor.id), ("position", t.position.toJson), ("rotation", t.rotation.toJson),
      ("scale", t.scale.toJson), ("color", .text actor.appearance.color.text)]

def World.snapshot (w : World) : Json :=
  .object [("objects", .list (w.actors.map Actor.snapshot))]

def World.snapshotText (w : World) : String := w.snapshot.pretty

end BlockScript
