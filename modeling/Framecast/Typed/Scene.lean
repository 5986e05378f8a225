import Framecast.Typed.Class

/-!
# The classes of a scene

The stock of classes that a station comes with: images, textures, materials,
accessors and a sample that has a property of nearly every kind. The last one
declares bounds the wrong way round, so it never has a schema. Layouts that a
station publishes later are numbered behind these.
-/

namespace Framecast.Scene

/-- The number one, as a single. -/
def one : Binary32 := ⟨0x3f800000⟩

/-- The number zero, as a single. -/
def zero : Binary32 := ⟨0⟩

/-- An image, opaque to the registry. -/
def image : ResourceClass := ⟨"image", 0, none⟩

/-- A texture: an image with a label. -/
def texture : ResourceClass :=
  ⟨"texture", 1, some
    [{ name := "image", marker := .ref "image" },
      { name := "label", marker := .string, required := true, isMutable := false }]⟩

/-- A material. -/
def material : ResourceClass :=
  ⟨"material", 2, some
    [{ name := "name", marker := .string, default? := some (.text "material") },
      { name := "double_sided", marker := .bool },
      { name := "base_color_factor", marker := .floats .rgba,
        default? := some (.floats [one, one, one, one]) },
      { name := "metallic_factor", marker := .f32, default? := some (.float one), script := true,
        min? := some ⟨0⟩, max? := some ⟨0x3ff0000000000000⟩ },
      { name := "alpha_mode", marker := .variant 3, default? := some (.word 0) },
      { name := "base_color_texture", marker := .ref "texture" },
      { name := "layers", marker := .refArray "texture" 4 },
      { name := "slots", marker := .refMap "texture" 2 },
      { name := "fallback", marker := .backRef "material" },
      { name := "transform", marker := .floats .mat4, isMutable := false },
      { name := "lod", marker := .u32 }]⟩

/-- A buffer of vertex data. -/
def accessor : ResourceClass :=
  ⟨"accessor", 3, some [{ name := "data", marker := .arrayBuffer }]⟩

/-- A class with a property of nearly every kind. -/
def sample : ResourceClass :=
  ⟨"sample", 4, some
    [{ name := "on", marker := .bool, default? := some (.bool true) },
      { name := "count", marker := .u32, default? := some (.word 5), script := true,
        min? := some ⟨0x4000000000000000⟩, max? := some ⟨0x4022000000000000⟩ },
      { name := "mask", marker := .bitmask, default? := some (.word 0xffffffff) },
      { name := "uv", marker := .floats .vec2 },
      { name := "pos", marker := .floats .vec3,
        default? := some (.floats [one, ⟨0x40000000⟩, ⟨0x40400000⟩]) },
      { name := "tint", marker := .floats .rgb, isMutable := false },
      { name := "rot", marker := .floats .quat,
        default? := some (.floats [zero, zero, zero, one]) },
      { name := "view", marker := .floats .mat4 },
      { name := "next", marker := .ref "sample" },
      { name := "prev", marker := .backRef "sample" }]⟩

/-- A class whose bounds are the wrong way round. -/
def broken : ResourceClass :=
  ⟨"broken", 5, some
    [{ name := "x", marker := .f32, min? := some ⟨0x4000000000000000⟩,
        max? := some ⟨0x3ff0000000000000⟩ }]⟩

/-- All classes of the stock. -/
def classes : List ResourceClass := [image, texture, material, accessor, sample, broken]

/-- The class of a type tag. -/
def class? (tag : String) : Option ResourceClass := classes.find? (·.tag == tag)

-- Bounds the wrong way round leave a class without a schema; the image has none to begin with.
example : (classes.filter (·.schema?.isNone)).map ResourceClass.tag = ["image", "broken"] := by
  decide +kernel

end Framecast.Scene
