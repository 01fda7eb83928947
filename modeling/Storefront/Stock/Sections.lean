import Storefront.Section.Basic
/-! The stock sections, which every catalog of themes begins with. -/

namespace Storefront.Stock
open Setting

def header : Section where
  type := "header"
  name := "Header"
  variants := [⟨"style-a", "Standard"⟩, ⟨"style-b", "Centered"⟩]
  settings := [
    ⟨"logo_text", "Logo Text", .str "My Store", .text⟩,
    ⟨"bg_color", "Background Color", .str "#ffffff", .color⟩,
    ⟨"text_color", "Text Color", .str "#000000", .color⟩,
    ⟨"sticky", "Sticky Header", .bool false, .checkbox⟩]

def hero : Section where
  type := "hero"
  name := "Hero"
  variants := [⟨"style-a", "Full Width"⟩, ⟨"style-b", "Split Screen"⟩]
  settings := [
    ⟨"heading", "Heading", .str "Welcome to our store", .text⟩,
    ⟨"subheading", "Subheading", .str "Discover our latest collections.", .textarea⟩,
    ⟨"button_text", "Button Text", .str "Shop Now", .text⟩,
    ⟨"bg_color", "Background Color", .str "#f4f4f4", .color⟩,
    ⟨"text_color", "Text Color", .str "#000000", .color⟩,
    ⟨"padding_top", "Padding Top", .ofNat 80, .wholeRange 0 200 10 (some "px")⟩,
    ⟨"padding_bottom", "Padding Bottom", .ofNat 80, .wholeRange 0 200 10 (some "px")⟩]

def banner : Section where
  type := "image-banner"
  name := "Image Banner"
  variants := [⟨"style-a", "Overlay"⟩, ⟨"style-b", "Text Below"⟩]
  settings := [
    ⟨"image_url", "Banner Image", .str "https://picsum.photos/seed/banner/1200/600", .imagePicker⟩,
    ⟨"heading", "Heading", .str "Season Sale", .text⟩,
    ⟨"overlay_opacity", "Overlay Opacity", .ofNat 30, .wholeRange 0 100 5 (some "%")⟩]

def grid : Section where
  type := "product-grid"
  name := "Product Grid"
  variants := [⟨"style-a", "Grid"⟩, ⟨"style-b", "Slider"⟩]
  settings := [
    ⟨"title", "Title", .str "Featured Products", .text⟩,
    ⟨"products_to_show", "Products to show", .ofNat 4, .wholeRange 2 12 1 none⟩,
    ⟨"columns", "Columns", .str "4", .select (["2", "3", "4"].map fun n => ⟨n, n⟩)⟩]

def footer : Section where
  type := "footer"
  name := "Footer"
  variants := [⟨"style-a", "Simple"⟩, ⟨"style-b", "Multi-column"⟩]
  settings := [
    ⟨"copyright_text", "Copyright Text", .str "© 2024, My Store", .text⟩,
    ⟨"bg_color", "Background Color", .str "#111111", .color⟩,
    ⟨"text_color", "Text Color", .str "#ffffff", .color⟩]

end Storefront.Stock
