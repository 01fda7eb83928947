import Storefront.Json.Printer
import Storefront.Liquid
import Storefront.Theme.Version
/-! What a theme tells about itself, and the layout that all its pages share. -/

namespace Storefront.Theme
open Liquid

structure About where
  name : String
  version : Version
  author : String
  documentationUrl : String
  supportUrl : String
  deriving DecidableEq, Repr

def About.standard : About where
  name := "Shopify Builder Theme"
  version := ⟨1, 0, 0, "", ""⟩
  author := "AI Builder"
  documentationUrl := "https://example.com"
  supportUrl := "https://example.com"

def About.settingsSchema (a : About) : Json :=
  .arr [.obj [("name", .str "theme_info"), ("theme_name", .str a.name),
    ("theme_version", .str a.version.toText), ("theme_author", .str a.author),
    ("theme_documentation_url", .str a.documentationUrl), ("theme_support_url", .str a.supportUrl)]]

def layout : String := lines [
    "<!doctype html>",
    "<html class=\"no-js\" lang=\"" ++ output "request.locale.iso_code" ++ "\">",
    "  <head>",
    "    <meta charset=\"utf-8\">",
    "    <meta http-equiv=\"X-UA-Compatible\" content=\"IE=edge\">",
    "    <meta name=\"viewport\" content=\"width=device-width,initial-scale=1\">",
    "    <title>" ++ output "page_title" ++ "</title>",
    "    " ++ output "content_for_header",
    "    <style>",
    "      body " ++ styles "margin: 0; font-family: sans-serif;",
    "      * " ++ styles "box-sizing: border-box;",
    "    </style>",
    "  </head>",
    "  <body>",
    "    " ++ output "content_for_layout",
    "  </body>",
    "</html>"]

end Storefront.Theme
